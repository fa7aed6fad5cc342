/-
What the customer is shown and what is admitted: the units a projection has
left over of a period are those an admission finds free in it, although the one
subtracts usage from allocation and the other reads the balance after a sweep.

`remainingUnits_available`: the two formulas agree in every state of a run.
`projection_admission`: so does what is shown with what is admitted.
-/
import Zenod.Phylax.Gates
import Zenod.Phylax.Projection

namespace Zenod.Phylax

variable {B : Backend} {u : Option Draw}

/-! ## Controls belong to no period -/

/-- A control belongs to no period. -/
def EntryRow.Detached (e : EntryRow) : Prop := e.kind = .suspend ∨ e.kind = .resume → e.periodId = none

def ControlsDetached (db : Db) : Prop := ∀ e ∈ db.entries.rows, e.Detached

theorem ControlsDetached.insertEntry {db db' : Db} {input : EntryInput} {row : EntryRow} (h : ControlsDetached db)
    (hrow : row.Detached) (hins : insertEntry db input = .ok (row, db')) : ControlsDetached db' := by
  intro e he
  rw [insertEntry_rows hins, List.mem_append, List.mem_singleton] at he
  rcases he with he | rfl
  · exact h e he
  · exact hrow

theorem BookGuard.detached {db : Db} {input : EntryInput} (h : BookGuard B db input) {n : Nat} : (input.row n).Detached := by
  intro hk
  simp only [EntryInput.row] at hk ⊢
  cases h with
  | grant _ hkind | adjustment _ hkind | usage _ hkind | expiry _ hkind => simp [hkind] at hk
  | suspend _ hp _ => exact hp
  | resume _ hp => exact hp

theorem Write.detached {db db' : Db} (hw : Write B u db db') (h : ControlsDetached db) : ControlsDetached db' := by
  cases hw with
  | book input row _ hguard hins =>
    refine h.insertEntry ?_ hins
    rw [(insertEntry_ok.1 hins).1]
    exact hguard.detached
  | capture row work db₁ now _ _ hdb => subst hdb; exact h
  | period _ _ _ _ _ _ | pause _ _ _ _ | move _ _ _ _ _ => exact h

theorem Charge.detached {owned : Int} {w : PaidWorkRow} {db db' : Db} {e : EntryRow} (hc : Charge B owned w db e db')
    (h : ControlsDetached db) : ControlsDetached db' := by
  cases hc with
  | replay _ _ => exact h
  | book input _ _ hkind _ _ _ _ hins =>
    refine h.insertEntry ?_ hins
    rw [(insertEntry_ok.1 hins).1]
    intro hk
    simp [EntryInput.row, hkind] at hk

theorem Settle.detached {db db' : Db} {w : PaidWorkRow} {via : Via} (hs : Settle B w db via db') (h : ControlsDetached db) :
    ControlsDetached db' := by
  cases hs with
  | lease _ _ _ _ e db₁ _ _ _ _ hc => exact fun e' he' => hc.detached h e' he'
  | receipt _ _ _ e db₁ _ _ hc => exact fun e' he' => hc.detached h e' he'

theorem Reachable.detached {db : Db} (h : Reachable B db) : LedgerInv db ∧ ControlsDetached db := by
  refine h.invariant (P := fun d => LedgerInv d ∧ ControlsDetached d) ⟨.empty, by simp [ControlsDetached, Db.empty]⟩
    fun op d hd => op.preserves (P := fun d => LedgerInv d ∧ ControlsDetached d) (fun _ h => h.1.pointsBack)
      (fun _ _ h hw => ⟨h.1.write hw, hw.detached h.2⟩) (fun _ _ _ _ h hs => ⟨h.1.settle hs, hs.detached h.2⟩) hd

/-! ## Two formulas -/

/-- An entry of a period moves its balance by what it allocates less what it uses. -/
theorem EntryRow.Detached.totals {e : EntryRow} (h : e.Detached) {p : String} (hp : e.periodId = some p) :
    e.totals.balance = e.totals.allocated - e.totals.used := by
  have hcontrol : ¬(e.kind = .suspend ∨ e.kind = .resume) := fun hk => by
    rw [h hk] at hp
    cases hp
  unfold EntryRow.totals
  cases hkind : e.kind with
  | grant | adjustment | expiry | usage => simp
  | suspend | resume => simp [hkind] at hcontrol

theorem sum_sub_sum {es : List EntryRow} {f g h : EntryRow → Int} (heq : ∀ e ∈ es, f e = g e - h e) :
    (es.map f).sum = (es.map g).sum - (es.map h).sum := by
  induction es with
  | nil => rfl
  | cons e es ih =>
    have hrest := ih fun d hd => heq d (List.mem_cons_of_mem _ hd)
    have hfirst := heq e List.mem_cons_self
    simp only [List.map_cons, List.sum_cons]
    omega

theorem balance_eq {db : Db} (h : ControlsDetached db) (t p : String) :
    (sumTotals db t p).balance = (sumTotals db t p).allocated - (sumTotals db t p).used := by
  simp only [sumTotals, Table.sumBy]
  refine sum_sub_sum fun e he => ?_
  split
  next hin =>
    simp only [EntryRow.isIn, decide_eq_true_eq] at hin
    exact (h e he).totals hin.2
  next => rfl

/-- **What is left over of a period is what is free in it.** -/
theorem remainingUnits_available {db : Db} (hB : B.Sound) (hinv : LedgerInv db) (h : ControlsDetached db) (t p : String) :
    max 0 ((B.periodTotals db t p).allocated - (B.periodTotals db t p).used - db.reservedInPeriod t p) =
      availableInPeriod B db t p := by
  rw [availableInPeriod, periodBalance, hB db hinv.totals, balance_eq h]

/-! ## A fresh admission -/

/-- The sweep leaves every row its identity. -/
theorem sweep_identity {now : Int} {n : Nat} {db db' : Db} (h : reconcileExpiredPeriodsInTransaction B now db = .ok (n, db')) :
    db'.work.rows.map (·.identity) = db.work.rows.map (·.identity) := by
  refine sweep_preserves (fun d => d.work.rows.map (·.identity) = db.work.rows.map (·.identity)) (fun p _ _ d d' h₁ hd => ?_) h rfl
  have hpaused : (pauseEnded now d p).work.rows.map (·.identity) = d.work.rows.map (·.identity) := by
    simp only [pauseEnded, Db.updateWork, Table.rows_update, List.map_map]
    refine List.map_congr_left fun w _ => ?_
    simp only [Function.comp_apply]
    split
    · rfl
    · rfl
  rcases expirePeriod_cases h₁ with rfl | ⟨row, -, hins⟩
  · rw [hpaused, hd]
  · rw [insertEntry_work hins, hpaused, hd]

/-- No work has the id, the idempotency key or the provider event with the operation. -/
structure Fresh (db : Db) (n : AdmitInput Int) (id : String) : Prop where
  id : ∀ w ∈ db.work.rows, w.id ≠ id
  key : ∀ w ∈ db.work.rows, ¬(w.tenantId = n.tenantId ∧ w.idempotencyKey = n.idempotencyKey)
  event : ∀ w ∈ db.work.rows,
    ¬(w.tenantId = n.tenantId ∧ w.providerEventId = n.providerEventId ∧ w.operation = n.operation)

theorem Fresh.sweep {now : Int} {k : Nat} {db db' : Db} {n : AdmitInput Int} {id : String} (h : Fresh db n id)
    (hs : reconcileExpiredPeriodsInTransaction B now db = .ok (k, db')) : Fresh db' n id := by
  have hsame : ∀ w ∈ db'.work.rows, ∃ v ∈ db.work.rows, v.identity = w.identity := fun w hw => by
    have hmem : w.identity ∈ db'.work.rows.map (·.identity) := List.mem_map_of_mem hw
    rw [sweep_identity hs] at hmem
    exact List.mem_map.1 hmem
  simp only [PaidWorkRow.identity, Prod.mk.injEq] at hsame
  refine ⟨fun w hw => ?_, fun w hw => ?_, fun w hw => ?_⟩
  · obtain ⟨v, hv, hid, -⟩ := hsame w hw
    rw [← hid]
    exact h.id v hv
  · obtain ⟨v, hv, -, htenant, hkey, -⟩ := hsame w hw
    rw [← htenant, ← hkey]
    exact h.key v hv
  · obtain ⟨v, hv, -, htenant, -, hevent, hoperation⟩ := hsame w hw
    rw [← htenant, ← hevent, ← hoperation]
    exact h.event v hv

/-- The row a fresh admission inserts clashes with none. -/
theorem Fresh.insert {db : Db} {n : AdmitInput Int} {id : String} (h : Fresh db n id) (hash : String) (now : Int) :
    ∃ work, db.work.insert? (capturedRow id n hash now) = some work ∧
      work.rows = db.work.rows ++ [capturedRow id n hash now] := by
  refine Table.insert?_isSome fun w hw => ?_
  have hid := h.id w hw
  have hkey := h.key w hw
  have hevent := h.event w hw
  by_cases htenant : w.tenantId = n.tenantId
  · simp only [htenant, true_and, not_and] at hkey hevent
    by_cases hprovider : w.providerEventId = n.providerEventId
    · simp [Keyed.clash, capturedRow, hid, hkey, hevent hprovider]
    · simp [Keyed.clash, capturedRow, hid, hkey, hprovider]
  · simp [Keyed.clash, capturedRow, hid, htenant]

theorem Fresh.existing {db : Db} {n : AdmitInput Int} {id : String} (h : Fresh db n id) : existingWork db n = none := by
  have hkey : db.workByIdempotency n.tenantId n.idempotencyKey = none :=
    List.find?_eq_none.2 fun w hw => by simpa using h.key w hw
  have hevent : db.workByProviderEvent n.tenantId n.providerEventId n.operation = none :=
    List.find?_eq_none.2 fun w hw => by simpa using h.event w hw
  rw [existingWork, hkey, hevent]
  rfl

/-- **What a fresh admission does**: the sweep, the insert, and one evaluation. -/
theorem admitPaidWork_fresh {input : AdmitInput (Option Int)} {n : AdmitInput Int} {now : Nat → Int} {id : String} {k : Nat}
    {db db₁ : Db} (hn : input.normalize (now 0) = .ok n)
    (hs : reconcileExpiredPeriodsInTransaction B (now 1) db = .ok (k, db₁)) (hfresh : Fresh db₁ n id) :
    ∃ work, db₁.work.insert? (capturedRow id n (payloadHash B.sha256 n.payload) (now 2)) = some work ∧
      ∀ verdict, verdict = evaluation B { db₁ with work := work } (capturedRow id n (payloadHash B.sha256 n.payload) (now 2)) (now 2) →
        admitPaidWork B input now id db =
          (.ok ⟨if verdict.1 = .ready then .ready else .paused,
            paidWork ((capturedRow id n (payloadHash B.sha256 n.payload) (now 2)).evaluated verdict (now 2))⟩,
            { db₁ with work := work }.updateWork (fun v => v.id = id) (·.evaluated verdict (now 2))
              (PaidWorkRow.keeps fun _ => rfl)) := by
  obtain ⟨work, hins, hrows⟩ := hfresh.insert (payloadHash B.sha256 n.payload) (now 2)
  refine ⟨work, hins, fun verdict hverdict => ?_⟩
  have hmem : capturedRow id n (payloadHash B.sha256 n.payload) (now 2) ∈ work.rows := by simp [hrows]
  have hfind : Db.workById { db₁ with work := work } id = some (capturedRow id n (payloadHash B.sha256 n.payload) (now 2)) :=
    @workById_of_mem { db₁ with work := work } _ hmem
  have heval := (@evaluateWork_ok B id (now 2) { db₁ with work := work } _ _).2
    ⟨_, hfind, by rw [if_pos (.inl rfl)]; exact ⟨rfl, rfl⟩⟩
  rw [← hverdict] at heval
  simp only [admitPaidWork, transaction, hn, bind, Except.bind, hs, hfresh.existing, hins, heval, pure, Except.pure]
  rfl

/-! ## Projection and admission -/

/-- What a projection that reports a period read. -/
theorem customerProjection_ok {db : Db} {tenantId p : String} {t : Int} {c : CustomerProjection}
    (hc : customerProjection B tenantId t db = .ok c) (hp : c.periodId = some p) :
    ValidTime t ∧ ∃ period ∈ db.periods.rows, period.tenantId = c.tenantId ∧ period.periodId = p ∧ period.startsAt ≤ t ∧
      t < period.endsAt ∧
      c.remainingUnits = max 0 ((B.periodTotals db c.tenantId p).allocated - (B.periodTotals db c.tenantId p).used -
        db.reservedInPeriod c.tenantId p) ∧
      c.state = if db.isSuspended c.tenantId then .suspended else if c.remainingUnits ≤ 0 then .paused else .active := by
  simp only [customerProjection, bind_ok, timestamp_ok] at hc
  obtain ⟨tenant, -, now, ⟨rfl, ht⟩, hc⟩ := hc
  split at hc
  · obtain rfl := pure_ok.1 hc
    cases hp
  next period hperiod =>
    obtain rfl := pure_ok.1 hc
    simp only [Option.some.injEq] at hp
    subst hp
    have hmem := List.mem_of_mem_head? hperiod
    rw [List.mem_insertionSort, List.mem_filter, decide_eq_true_eq] at hmem
    exact ⟨ht, period, hmem.1, hmem.2.1, rfl, hmem.2.2.1, hmem.2.2.2, rfl, rfl⟩

/-- A sweep and an insert of captured work leave a running period's room as it was. -/
theorem available_captured {db db₁ : Db} (hB : B.Sound) (h : LedgerInv db) (h₁ : LedgerInv db₁) {t p : String}
    (hu : Untouched t p db db₁) {row : PaidWorkRow} (hrow : row.state = .captured) {work : Table PaidWorkRow}
    (hins : db₁.work.insert? row = some work) :
    availableInPeriod B { db₁ with work := work } t p = availableInPeriod B db t p := by
  have hreserved : Db.reservedInPeriod { db₁ with work := work } t p = db.reservedInPeriod t p := by
    rw [reservedInPeriod_eq, Table.sumBy_insert? hins, heldIn_eq_zero (by simp [PaidWorkRow.holdsUnits, hrow]), Int.add_zero]
    exact hu.reserved
  have htotals : TotalsSound { db₁ with work := work } := h₁.totals
  rw [availableInPeriod, availableInPeriod, periodBalance, periodBalance, hB _ htotals, hB db h.totals, hreserved]
  exact congrArg (fun b => max 0 (b - db.reservedInPeriod t p)) hu.balance

/-- How `evaluateWork` finds the captured work of a period that runs. -/
theorem evaluation_running {db : Db} {w : PaidWorkRow} {now : Int} {period : PeriodRow}
    (hperiod : db.period w.tenantId w.periodId = some period) (hstart : period.startsAt ≤ now) (hend : now < period.endsAt) :
    (evaluation B db w now).1 = if db.isSuspended w.tenantId = false ∧
      w.estimatedUnits ≤ availableInPeriod B db w.tenantId w.periodId then .ready else .paused := by
  unfold evaluation
  rw [hperiod]
  by_cases hsuspended : db.isSuspended w.tenantId = true
  · simp [hsuspended]
  · by_cases hroom : availableInPeriod B db w.tenantId w.periodId < w.estimatedUnits
    · have hbounds : ¬(period.startsAt > now ∨ period.endsAt ≤ now) := by omega
      simp [hsuspended, hbounds, hroom, Int.not_le.2 hroom]
    · have hbounds : ¬(period.startsAt > now ∨ period.endsAt ≤ now) := by omega
      simp [hsuspended, hbounds, hroom, Int.not_lt.1 hroom]

/-- Work that is inserted and found paused reserves nothing. -/
theorem reserved_paused {db : Db} {row : PaidWorkRow} (hrow : row.state = .captured) {work : Table PaidWorkRow}
    (hins : db.work.insert? row = some work) {verdict : PaidWorkState × Option PauseReason} (hverdict : verdict.1 = .paused)
    (now : Int) (hid : ∀ w ∈ db.work.rows, w.id ≠ row.id) (t p : String) :
    ({ db with work := work }.updateWork (fun v => v.id = row.id) (·.evaluated verdict now)
      (PaidWorkRow.keeps fun _ => rfl)).reservedInPeriod t p = db.reservedInPeriod t p := by
  have hupdate := Table.sumBy_update_eq (t := work) (p := fun v => v.id = row.id) (f := (·.evaluated verdict now))
    (PaidWorkRow.keeps fun _ => rfl) (c := (·.heldIn t p)) (fun w hw hsame => by
      rw [(Table.insert?_eq_some.1 hins).2, List.mem_append, List.mem_singleton] at hw
      rcases hw with hw | rfl
      · exact absurd (of_decide_eq_true hsame) (hid w hw)
      · have hafter : (w.evaluated verdict now).holdsUnits = false := by
          simp [PaidWorkRow.holdsUnits, PaidWorkRow.evaluated, PaidWorkRow.unleased, hverdict]
        have hbefore : w.holdsUnits = false := by simp [PaidWorkRow.holdsUnits, hrow]
        rw [heldIn_eq_zero hafter, heldIn_eq_zero hbefore])
  rw [reservedInPeriod_eq, reservedInPeriod_eq]
  refine hupdate.trans ?_
  rw [Table.sumBy_insert? hins, heldIn_eq_zero (by simp [PaidWorkRow.holdsUnits, hrow]), Int.add_zero]

/-- **The customer's projection agrees with the admission gate.** -/
theorem projection_admission (sha256 : String → String) (basisPoints : Int → Int → Int) {db : Db}
    (hreach : Reachable (hotPath sha256 basisPoints) db) {tenantId p : String} {t : Int} {c : CustomerProjection}
    (hc : customerProjection (hotPath sha256 basisPoints) tenantId t db = .ok c) (hp : c.periodId = some p)
    {input : AdmitInput (Option Int)} {n : AdmitInput Int} {id : String} (hn : input.normalize t = .ok n)
    (htenant : n.tenantId = c.tenantId) (hperiod : n.periodId = p) (hpos : 0 < n.estimatedUnits) (hfresh : Fresh db n id) :
    let admission := admitPaidWork (hotPath sha256 basisPoints) input (fun _ => t) id db
    (c.state = .active → n.estimatedUnits ≤ c.remainingUnits → ∃ a, admission.1 = .ok a ∧ a.state = .ready) ∧
    (c.state = .paused ∨ c.state = .suspended ∨ c.remainingUnits < n.estimatedUnits →
      ∃ a, admission.1 = .ok a ∧ a.state = .paused ∧ a.work.reservedUnits = 0 ∧
        admission.2.reservedInPeriod c.tenantId p = db.reservedInPeriod c.tenantId p) := by
  intro admission
  have hB := hotPath_sound sha256 basisPoints
  obtain ⟨h, hdetached⟩ := hreach.detached
  obtain ⟨-, period, hmem, hpt, hpp, hstart, hend, hremaining, hstate⟩ := customerProjection_ok hc hp
  obtain ⟨k, db₁, hs⟩ := sweep_isOk (B := hotPath sha256 basisPoints) t h
  have h₁ : LedgerInv db₁ := h.steps (sweep_steps hs : Steps (hotPath sha256 basisPoints) none db db₁)
  have hu : Untouched n.tenantId p db db₁ := expirePeriods_untouched (fun q hq hkey => by
    obtain ⟨hqmem, hqend, -⟩ := mem_changeablePeriods.1 hq
    obtain rfl := period_ext hqmem hmem (hkey.1.trans (htenant.trans hpt.symm)) (hkey.2.trans hpp.symm)
    omega) hs
  obtain ⟨work, hins, hadmit⟩ := @admitPaidWork_fresh _ _ _ (fun _ => t) _ _ _ _ hn hs (hfresh.sweep hs)
  have hresult := hadmit _ rfl
  have havailable := available_captured hB h h₁ hu (by rfl) hins
  have hleft := remainingUnits_available hB h hdetached c.tenantId p
  rw [← hremaining] at hleft
  have hfound : Db.period { db₁ with work := work } n.tenantId n.periodId = some period := by
    rw [Db.period, sweep_periods hs]
    exact Table.find?_of_mem (identifies_period _ _) hmem (by simp [hpt, hpp, htenant, hperiod])
  have hsuspended : Db.isSuspended { db₁ with work := work } n.tenantId = db.isSuspended c.tenantId := by
    rw [htenant]
    exact congrFun (isSuspended_sweep hs) c.tenantId
  have hverdict := @evaluation_running (hotPath sha256 basisPoints) { db₁ with work := work }
    (capturedRow id n (payloadHash (hotPath sha256 basisPoints).sha256 n.payload) t) t _ hfound hstart hend
  have hroom : availableInPeriod (hotPath sha256 basisPoints) { db₁ with work := work } n.tenantId n.periodId = c.remainingUnits := by
    rw [hperiod, havailable, hleft, htenant]
  simp only [capturedRow, hsuspended, hroom] at hverdict
  have hnonneg : 0 ≤ c.remainingUnits := by
    rw [hremaining]
    exact le_max_left _ _
  refine ⟨fun hactive hle => ?_, fun hrefused => ?_⟩
  · have hlive : db.isSuspended c.tenantId = false := by
      by_contra hsus
      rw [Bool.not_eq_false] at hsus
      rw [hstate, hsus, if_pos rfl] at hactive
      cases hactive
    rw [if_pos ⟨hlive, hle⟩] at hverdict
    refine ⟨_, congrArg Prod.fst hresult, ?_⟩
    exact if_pos hverdict
  · have hno : ¬(db.isSuspended c.tenantId = false ∧ n.estimatedUnits ≤ c.remainingUnits) := by
      rintro ⟨hlive, hle⟩
      rw [hlive, if_neg Bool.false_ne_true] at hstate
      rcases hrefused with hpaused | hsus | hshort
      · rw [hpaused] at hstate
        split at hstate
        next hnone => omega
        next => cases hstate
      · rw [hsus] at hstate
        split at hstate <;> cases hstate
      · omega
    rw [if_neg hno] at hverdict
    have hready := ne_of_eq_of_ne hverdict (by decide : PaidWorkState.paused ≠ .ready)
    refine ⟨_, congrArg Prod.fst hresult, if_neg hready, if_neg hready, ?_⟩
    have hafter := congrArg (fun d => Db.reservedInPeriod d c.tenantId p) (congrArg Prod.snd hresult)
    refine hafter.trans ((reserved_paused (by rfl) hins hverdict t (hfresh.sweep hs).id c.tenantId p).trans ?_)
    rw [← htenant]
    exact hu.reserved

namespace Sample

/-- The ledger after the grant of ten units. -/
def granted : Db := runOps backend [grant] Db.empty

def shown : CustomerProjection :=
  ⟨"tenant", some "period", .active, 10, 0, 0, 10, 0, some 1000⟩

/-- Four units of work. -/
def fourUnits : AdmitInput (Option Int) := ⟨"tenant", "period", "work", "event", "transcribe", "inbox", 4, some 20⟩

end Sample

deriving instance DecidableEq for AdmitInput

theorem fourUnits_admitted :
    ∃ a, (admitPaidWork Sample.backend Sample.fourUnits (fun _ => 20) Sample.workId.text Sample.granted).1 = .ok a ∧
      a.state = .ready := by
  have hshown : customerProjection (hotPath id fun _ _ => 0) "tenant" 20 Sample.granted = .ok Sample.shown := by decide +kernel
  have hnormal : Sample.fourUnits.normalize 20 =
      .ok ⟨"tenant", "period", "work", "event", "transcribe", "inbox", 4, 20⟩ := by decide +kernel
  have hempty : Sample.granted.work.rows = [] := by decide +kernel
  have hreach : Reachable (hotPath id fun _ _ => 0) Sample.granted := ⟨[Sample.grant], rfl⟩
  have hfresh : Fresh Sample.granted ⟨"tenant", "period", "work", "event", "transcribe", "inbox", 4, 20⟩ Sample.workId.text :=
    ⟨by simp [hempty], by simp [hempty], by simp [hempty]⟩
  exact (projection_admission id (fun _ _ => 0) hreach hshown rfl hnormal rfl rfl (by decide) hfresh).1 rfl (by decide)

end Zenod.Phylax
