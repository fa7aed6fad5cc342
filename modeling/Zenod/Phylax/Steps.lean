/-
Every method is a sequence of writes (`LedgerOp.steps`), a completion being a
sweep and then at most one settlement (`completePaidWork_cases`,
`receipt_cases`). From here on no proof unfolds a method to keep an invariant.
-/
import Zenod.Phylax.Write

namespace Zenod.Phylax

variable {B : Backend} {u : Option Draw}

/-! ## Statements that address one row -/

/-- A statement whose WHERE clause names the row's id and holds of the row. -/
theorem updateWork_mine {db : Db} {w : PaidWorkRow} (hw : w ∈ db.work.rows) {p : PaidWorkRow → Bool}
    (hp : p w = true) (hid : ∀ v, p v = true → v.id = w.id) {g : PaidWorkRow → PaidWorkRow} {hg} :
    db.updateWork p g hg = db.updateWork (fun v => v.id = w.id) g hg := by
  have : ∀ v ∈ db.work.rows, (if p v then g v else v) = if v.id = w.id then g v else v := by
    intro v hv
    by_cases h : v.id = w.id
    · rw [work_ext hv hw h]
      simp [hp]
    · have : p v = false := by
        by_contra hne
        exact h (hid v (by simpa using hne))
      simp [h, this]
  unfold Db.updateWork
  congr 1
  apply Table.ext
  simpa using this

theorem updateWork_none {db : Db} {p : PaidWorkRow → Bool} {g : PaidWorkRow → PaidWorkRow} {hg}
    (h : ∀ v ∈ db.work.rows, p v = false) : db.updateWork p g hg = db := by
  unfold Db.updateWork
  rw [Table.update_eq_self h]

theorem workById_updateWork {db : Db} {id : String} {p : PaidWorkRow → Bool} {g : PaidWorkRow → PaidWorkRow} {hg}
    (hid : ∀ v, (g v).id = v.id) :
    (db.updateWork p g hg).workById id = (db.workById id).map fun v => if p v then g v else v :=
  Table.find?_update hg fun r => by simp [hid]

/-- The row a statement addressed by id, read back. -/
theorem workById_move {db : Db} {w : PaidWorkRow} (hw : w ∈ db.work.rows) {g : PaidWorkRow → PaidWorkRow} {hg}
    (hid : ∀ v, (g v).id = v.id) :
    (db.updateWork (fun v => v.id = w.id) g hg).workById w.id = some (g w) := by
  rw [workById_updateWork hid, workById_of_mem hw]
  simp

/-- Two statements on one row. -/
theorem updateWork_move_move {db : Db} {id : String} {f g : PaidWorkRow → PaidWorkRow} {hf hg}
    (hid : ∀ v, (f v).id = v.id) :
    (db.updateWork (fun v => v.id = id) f hf).updateWork (fun v => v.id = id) g hg =
      db.updateWork (fun v => v.id = id) (fun v => g (f v)) fun r s => (hg (f r) s).trans (hf r s) := by
  unfold Db.updateWork
  congr 1
  apply Table.ext
  simp only [Table.rows_update, List.map_map]
  refine List.map_congr_left fun v _ => ?_
  by_cases h : v.id = id <;> simp [h, hid]

theorem count_mine {db : Db} {w : PaidWorkRow} (hw : w ∈ db.work.rows) {p : PaidWorkRow → Bool}
    (hp : p w = true) (hid : ∀ v, p v = true → v.id = w.id) : db.work.count p = 1 :=
  Table.count_of_mem (identifies_id w.id) hw (by simp) hp fun v hv => by simp [hid v hv]

theorem mem_move {db : Db} {w : PaidWorkRow} (hw : w ∈ db.work.rows) {g : PaidWorkRow → PaidWorkRow} {hg} :
    g w ∈ (db.updateWork (fun v => v.id = w.id) g hg).work.rows := by
  simp only [Db.updateWork, Table.rows_update, List.mem_map]
  exact ⟨w, hw, by simp⟩

/-! ## `insertEntry` -/

theorem insertEntry_ok {db db' : Db} {input : EntryInput} {row : EntryRow} :
    insertEntry db input = .ok (row, db') ↔ row = input.row (db.lastSequence + 1) ∧
      ∃ entries, db.entries.insert? row = some entries ∧
        db' = { db with entries := entries, totals := bumpTotals db.totals row, lastSequence := db.lastSequence + 1 } := by
  simp only [insertEntry]
  constructor
  · intro h
    split at h
    · cases h
    next entries hins =>
    simp only [Except.ok.injEq, Prod.mk.injEq] at h
    obtain ⟨rfl, rfl⟩ := h
    exact ⟨rfl, entries, hins, rfl⟩
  · rintro ⟨rfl, entries, hins, rfl⟩
    simp only [hins]

theorem insertEntry_work {db db' : Db} {input : EntryInput} {row : EntryRow}
    (h : insertEntry db input = .ok (row, db')) : db'.work = db.work := by
  obtain ⟨-, entries, -, rfl⟩ := insertEntry_ok.1 h
  rfl

/-- Booking an entry and updating the work are independent statements. -/
theorem insertEntry_updateWork {db db' : Db} {input : EntryInput} {row : EntryRow} {p : PaidWorkRow → Bool}
    {g : PaidWorkRow → PaidWorkRow} {hg} (h : insertEntry db input = .ok (row, db')) :
    insertEntry (db.updateWork p g hg) input = .ok (row, db'.updateWork p g hg) := by
  obtain ⟨hrow, entries, hins, rfl⟩ := insertEntry_ok.1 h
  exact insertEntry_ok.2 ⟨hrow, entries, hins, rfl⟩

/-! ## `evaluateWork` -/

theorem evaluateWork_ok {id : String} {now : Int} {db db' : Db} {row : PaidWorkRow} :
    evaluateWork B id now db = .ok (row, db') ↔ ∃ w, db.workById id = some w ∧
      if w.state = .captured ∨ w.state = .paused then
        row = w.evaluated (evaluation B db w now) now ∧
        db' = db.updateWork (fun v => v.id = id) (·.evaluated (evaluation B db w now) now) (PaidWorkRow.keeps fun _ => rfl)
      else row = w ∧ db' = db := by
  simp only [evaluateWork, bind_ok, theWork_ok]
  constructor
  · rintro ⟨w, hw, h⟩
    refine ⟨w, hw, ?_⟩
    obtain ⟨hmem, rfl⟩ := workById_mem hw
    split at h
    · next hs =>
      simp only [bind_ok, theWork_ok, pure_ok, Prod.mk.injEq] at h
      obtain ⟨row', hrow, rfl, rfl⟩ := h
      rw [workById_move hmem (by intros; rfl)] at hrow
      rw [if_pos hs]
      exact ⟨(Option.some.inj hrow).symm, rfl⟩
    · next hs =>
      simp only [pure_ok, Prod.mk.injEq] at h
      rw [if_neg hs]
      exact ⟨h.1.symm, h.2.symm⟩
  · rintro ⟨w, hw, h⟩
    refine ⟨w, hw, ?_⟩
    obtain ⟨hmem, rfl⟩ := workById_mem hw
    split at h
    · next hs =>
      obtain ⟨rfl, rfl⟩ := h
      simp only [bind_ok, theWork_ok, pure_ok, Prod.mk.injEq, if_pos hs]
      exact ⟨_, workById_move hmem (by intros; rfl), rfl, trivial⟩
    · next hs =>
      simp only [if_neg hs, pure_ok, Prod.mk.injEq]
      exact ⟨h.1.symm, h.2.symm⟩

theorem evaluateWork_steps {id : String} {now : Int} {db db' : Db} {row : PaidWorkRow}
    (h : evaluateWork B id now db = .ok (row, db')) : Steps B u db db' := by
  obtain ⟨w, hw, h⟩ := evaluateWork_ok.1 h
  obtain ⟨hmem, rfl⟩ := workById_mem hw
  split at h
  · next hs =>
    obtain ⟨-, rfl⟩ := h
    exact .single (.move w _ _ hmem (.evaluate now hs))
  · next hs =>
    obtain ⟨-, rfl⟩ := h
    exact .refl

/-- A row whose lease is over: captured, then evaluated. -/
theorem free_steps {w row : PaidWorkRow} {now : Int} {db db' : Db} (hw : w ∈ db.work.rows)
    (hs : w.state = .processing)
    (h : evaluateWork B w.id now
      (db.updateWork (fun v => v.id = w.id) (·.unleased .captured none now) (PaidWorkRow.keeps fun _ => rfl)) = .ok (row, db')) :
    Steps B u db db' := by
  obtain ⟨v, hv, h⟩ := evaluateWork_ok.1 h
  rw [workById_move hw (by intros; rfl)] at hv
  obtain rfl := Option.some.inj hv
  rw [if_pos (.inl rfl)] at h
  obtain ⟨-, rfl⟩ := h
  rw [updateWork_move_move (by intros; rfl)]
  exact .single (.move w _ _ hw (.free now _ hs rfl))

/-! ## The sweep of ended periods -/

theorem isOpen_pauseEnded {now : Int} {db : Db} {period : PeriodRow} :
    ∀ w ∈ (pauseEnded now db period).work.rows, w.isIn period.tenantId period.periodId = true → w.isOpen = false := by
  intro w hw hin
  simp only [pauseEnded, Db.updateWork, Table.rows_update, List.mem_map] at hw
  obtain ⟨v, -, rfl⟩ := hw
  by_cases hv : v.isIn period.tenantId period.periodId = true ∧ v.isOpen = true
  · rw [if_pos (decide_eq_true hv)]
    rfl
  · simp only [hv, decide_false, Bool.false_eq_true, if_false] at hin ⊢
    by_contra hne
    exact hv ⟨hin, by simpa using hne⟩

/-- An ended period is paused, and its rest booked as expired. -/
theorem expirePeriod_cases {now : Int} {inserted n : Nat} {db db' : Db} {period : PeriodRow}
    (h : expirePeriod B now inserted db period = .ok (n, db')) :
    db' = pauseEnded now db period ∨ ∃ row, 0 < reclaimable B (pauseEnded now db period) period ∧
      insertEntry (pauseEnded now db period) (expiryEntry B now (pauseEnded now db period) period) =
        .ok (row, db') := by
  simp only [expirePeriod] at h
  split at h
  · simp only [Except.ok.injEq, Prod.mk.injEq] at h
    exact .inl h.2.symm
  next hne =>
  split at h
  · simp only [Except.ok.injEq, Prod.mk.injEq] at h
    exact .inl h.2.symm
  simp only [bind_ok, pure_ok, Prod.mk.injEq] at h
  obtain ⟨⟨row, db₁⟩, hins, -, rfl⟩ := h
  have hnonneg : 0 ≤ reclaimable B (pauseEnded now db period) period := by unfold reclaimable; omega
  exact .inr ⟨row, by omega, hins⟩

/-- What every ended period's turn preserves, the sweep preserves. -/
theorem expirePeriods_preserves {P : Db → Prop} {now : Int} :
    ∀ {periods : List PeriodRow} {inserted n : Nat} {db db' : Db},
      (∀ p ∈ periods, ∀ k m db db', expirePeriod B now k db p = .ok (m, db') → P db → P db') →
      expirePeriods B now periods inserted db = .ok (n, db') → P db → P db'
  | [], _, _, _, _, _, h, hP => by
    simp only [expirePeriods, Except.ok.injEq, Prod.mk.injEq] at h
    obtain ⟨-, rfl⟩ := h
    exact hP
  | period :: periods, inserted, n, db, db', hstep, h, hP => by
    simp only [expirePeriods, bind_ok] at h
    obtain ⟨⟨m, db₁⟩, h₁, h₂⟩ := h
    refine expirePeriods_preserves (fun p hp => hstep p (List.mem_cons_of_mem _ hp)) h₂ ?_
    exact hstep period List.mem_cons_self _ _ _ _ h₁ hP

theorem sweep_preserves (P : Db → Prop) {now : Int} {n : Nat} {db db' : Db}
    (hstep : ∀ p k m db db', expirePeriod B now k db p = .ok (m, db') → P db → P db')
    (h : reconcileExpiredPeriodsInTransaction B now db = .ok (n, db')) (hP : P db) : P db' :=
  expirePeriods_preserves (fun p _ => hstep p) h hP

theorem pauseEnded_write (now : Int) (db : Db) (period : PeriodRow) :
    Write B u db (pauseEnded now db period) :=
  .pause _ .periodInactive now fun w hw => by
    simp only [decide_eq_true_eq] at hw
    exact hw.2

theorem expirePeriod_steps {now : Int} {inserted n : Nat} {db db' : Db} {period : PeriodRow}
    (h : expirePeriod B now inserted db period = .ok (n, db')) : Steps B u db db' := by
  rcases expirePeriod_cases h with rfl | ⟨row, hpos, hins⟩
  · exact .single (pauseEnded_write now db period)
  · refine .tail (.single (pauseEnded_write now db period)) (.book _ row _ ?_ hins)
    refine .expiry _ rfl rfl ?_ ?_ isOpen_pauseEnded
    all_goals
      simp only [expiryEntry, Int.neg_neg]
      unfold reclaimable at hpos ⊢
      omega

theorem sweep_steps {now : Int} {n : Nat} {db db' : Db}
    (h : reconcileExpiredPeriodsInTransaction B now db = .ok (n, db')) : Steps B u db db' :=
  sweep_preserves (Steps B u db) (fun _ _ _ _ _ h₁ hs => hs.trans (expirePeriod_steps h₁)) h .refl

/-- What the sweep makes of a row: itself, or its pause when it was captured or ready. -/
theorem sweep_row {now : Int} {n : Nat} {db db' : Db}
    (h : reconcileExpiredPeriodsInTransaction B now db = .ok (n, db')) {w : PaidWorkRow} (hw : w ∈ db.work.rows) :
    ∃ v ∈ db'.work.rows, v = w ∨ w.isOpen = true ∧ v = w.unleased .paused (some .periodInactive) now := by
  refine sweep_preserves (fun d => ∃ v ∈ d.work.rows, v = w ∨ w.isOpen = true ∧
    v = w.unleased .paused (some .periodInactive) now) (fun p _ _ d d' h₁ hv => ?_) h ⟨w, hw, .inl rfl⟩
  have hwork : d'.work = (pauseEnded now d p).work := by
    rcases expirePeriod_cases h₁ with rfl | ⟨row, -, hins⟩
    · rfl
    · exact insertEntry_work hins
  obtain ⟨v, hmem, hv⟩ := hv
  simp only [hwork, pauseEnded, Db.updateWork, Table.rows_update, List.mem_map, exists_exists_and_eq_and]
  refine ⟨v, hmem, ?_⟩
  by_cases hp : v.isIn p.tenantId p.periodId = true ∧ v.isOpen = true
  · rw [if_pos (decide_eq_true hp)]
    rcases hv with rfl | ⟨hopen, rfl⟩
    · exact .inr ⟨hp.2, rfl⟩
    · exact absurd hp.2 (by simp [PaidWorkRow.isOpen, PaidWorkRow.unleased])
  · rw [if_neg (by simpa using hp)]
    exact hv

/-- The sweep leaves work alone that is neither captured nor ready. -/
theorem sweep_mem {now : Int} {n : Nat} {db db' : Db}
    (h : reconcileExpiredPeriodsInTransaction B now db = .ok (n, db')) {w : PaidWorkRow} (hw : w ∈ db.work.rows)
    (hclosed : w.isOpen = false) : w ∈ db'.work.rows := by
  obtain ⟨v, hmem, rfl | ⟨hopen, -⟩⟩ := sweep_row h hw
  · exact hmem
  · rw [hclosed] at hopen
    cases hopen

/-! ## The sweep of expired leases -/

theorem leaseExpired_processing {w : PaidWorkRow} {now : Int} (h : w.leaseExpired now = true) :
    w.state = .processing := by
  simp only [PaidWorkRow.leaseExpired, Bool.and_eq_true, decide_eq_true_eq] at h
  exact h.1

theorem reclaimLease_steps {now : Int} {changed n : Nat} {db db' : Db} {row : PaidWorkRow}
    (h : reclaimLease B now changed db row = .ok (n, db')) : Steps B u db db' := by
  simp only [reclaimLease] at h
  by_cases hex : ∃ w ∈ db.work.rows, w.id = row.id ∧ w.leaseExpired now = true
  · obtain ⟨w, hw, hid, hlease⟩ := hex
    have hstate := leaseExpired_processing hlease
    have hmine : ∀ v : PaidWorkRow, decide (v.id = row.id ∧ v.leaseExpired now = true) = true → v.id = w.id :=
      fun v hv => by simp only [decide_eq_true_eq] at hv; rw [hv.1, hid]
    have hself : decide (w.id = row.id ∧ w.leaseExpired now = true) = true := by simp [hid, hlease]
    split at h
    · simp only [Except.ok.injEq, Prod.mk.injEq] at h
      obtain ⟨-, rfl⟩ := h
      rw [updateWork_mine hw hself hmine]
      exact .single (.move w _ _ hw (.cancel w.cancellationRequestedAt now (by simp [hstate])))
    rw [if_pos (count_mine hw hself hmine)] at h
    simp only [bind_ok, pure_ok, Prod.mk.injEq] at h
    obtain ⟨⟨r, db₁⟩, h₁, -, rfl⟩ := h
    rw [updateWork_mine hw hself hmine, ← hid] at h₁
    exact free_steps hw hstate h₁
  · have hnone : ∀ v ∈ db.work.rows, decide (v.id = row.id ∧ v.leaseExpired now = true) = false :=
      fun v hv => by simpa using fun h => hex ⟨v, hv, h⟩
    rw [Table.count_eq_zero hnone] at h
    split at h <;> simp only [Nat.zero_ne_one, if_false, Except.ok.injEq, Prod.mk.injEq] at h <;>
      obtain ⟨-, rfl⟩ := h <;> rw [updateWork_none hnone]

theorem reclaimLeases_steps {now : Int} : ∀ {rows : List PaidWorkRow} {changed n : Nat} {db db' : Db},
    reclaimLeases B now rows changed db = .ok (n, db') → Steps B u db db'
  | [], _, _, _, _, h => by
    simp only [reclaimLeases, Except.ok.injEq, Prod.mk.injEq] at h
    obtain ⟨-, rfl⟩ := h
    exact .refl
  | row :: rows, changed, n, db, db', h => by
    simp only [reclaimLeases, bind_ok] at h
    obtain ⟨⟨m, db₁⟩, h₁, h₂⟩ := h
    exact (reclaimLease_steps h₁).trans (reclaimLeases_steps h₂)

theorem reclaim_steps {now : Int} {tenantId : Option String} {n : Nat} {db db' : Db}
    (h : reconcileExpiredPaidWorkInTransaction B now tenantId db = .ok (n, db')) : Steps B u db db' :=
  reclaimLeases_steps h

theorem evaluateAll_steps {now : Int} : ∀ {rows : List PaidWorkRow} {ready n : Nat} {db db' : Db},
    evaluateAll B now rows ready db = .ok (n, db') → Steps B u db db'
  | [], _, _, _, _, h => by
    simp only [evaluateAll, Except.ok.injEq, Prod.mk.injEq] at h
    obtain ⟨-, rfl⟩ := h
    exact .refl
  | row :: rows, ready, n, db, db', h => by
    simp only [evaluateAll, bind_ok] at h
    obtain ⟨⟨r, db₁⟩, h₁, h₂⟩ := h
    exact (evaluateWork_steps h₁).trans (evaluateAll_steps h₂)

/-! ## Normalised inputs -/

theorem GrantInput.normalize_ok {input : GrantInput (Option Int)} {now : Int} {n : GrantInput Int}
    (h : input.normalize now = .ok n) :
    Normalized 512 n.tenantId ∧ Normalized 512 n.periodId ∧ 0 < n.amountUnits := by
  simp only [GrantInput.normalize, bind_ok, pure_ok] at h
  obtain ⟨t, ht, p, hp, -, -, -, -, m, hm, -, -, -, -, -, -, -, -, -, -, rfl⟩ := h
  exact ⟨required_normalized ht, required_normalized hp, (units_ok.1 hm).2.2.1 rfl⟩

theorem UsageInput.normalize_ok {input : UsageInput (Option Int)} {now : Int} {n : UsageInput Int}
    (h : input.normalize now = .ok n) : 0 ≤ n.amountUnits := by
  simp only [UsageInput.normalize, bind_ok, pure_ok] at h
  obtain ⟨t, ht, p, hp, m, hm, -, -, -, -, -, -, -, -, -, -, -, -, -, -, rfl⟩ := h
  exact (units_ok.1 hm).2.2.2 rfl

theorem AdmitInput.normalize_ok {input : AdmitInput (Option Int)} {now : Int} {n : AdmitInput Int}
    (h : input.normalize now = .ok n) (id : Uuid) (hash : String) (at_ : Int) :
    Captured (capturedRow id.text n hash at_) := by
  simp only [AdmitInput.normalize, bind_ok, pure_ok] at h
  obtain ⟨t, ht, p, hp, -, -, e, he, o, ho, -, -, m, hm, c, hc, rfl⟩ := h
  exact {
    id := ⟨id, rfl⟩
    state := rfl
    reserved := rfl
    estimated := ⟨(units_ok.1 hm).2.2.2 rfl, (units_ok.1 hm).2.1⟩
    createdAt := (timestamp_ok.1 hc).2
    lease := ⟨rfl, rfl, rfl⟩
    completed := ⟨rfl, rfl⟩
    unsettled := ⟨rfl, rfl⟩
    tenantId := required_normalized ht
    periodId := required_normalized hp
    providerEventId := required_normalized he
    operation := required_normalized ho }

theorem Admitted.captured {w : PaidWorkRow} (h : Admitted B u w) : Captured w := by
  obtain ⟨input, id, n, now, at_, -, hn, rfl⟩ := h
  exact AdmitInput.normalize_ok hn id _ at_

theorem CompleteInput.usage_ok {input : CompleteInput} {tenantId : String} {w : PaidWorkRow} {n : UsageInput Int}
    (h : input.usage tenantId w = .ok n) :
    n.tenantId = tenantId ∧ n.periodId = w.periodId ∧ n.amountUnits = input.amountUnits ∧
      n.occurredAt = input.occurredAt.getD w.createdAt ∧ 0 ≤ n.amountUnits := by
  simp only [CompleteInput.usage, bind_ok, pure_ok] at h
  obtain ⟨m, hm, -, -, -, -, -, -, -, -, t, ht, rfl⟩ := h
  exact ⟨rfl, rfl, (units_ok.1 hm).1.symm, (timestamp_ok.1 ht).1.symm, (units_ok.1 hm).2.2.2 rfl⟩

theorem ReceiptInput.usage_ok {input : ReceiptInput} {tenantId receipt : String} {w : PaidWorkRow}
    {n : UsageInput Int} (h : input.usage tenantId receipt w = .ok n) :
    n.tenantId = tenantId ∧ n.periodId = w.periodId ∧ n.amountUnits = input.amountUnits ∧
      n.occurredAt = w.createdAt ∧ n.idempotencyKey = "usage:" ++ receipt ++ ":" ++ w.operation ∧
      0 ≤ n.amountUnits ∧ Js.isSafeInteger n.amountUnits = true := by
  simp only [ReceiptInput.usage, bind_ok, pure_ok] at h
  obtain ⟨m, hm, -, -, -, -, -, -, rfl⟩ := h
  exact ⟨rfl, rfl, (units_ok.1 hm).1.symm, rfl, rfl, (units_ok.1 hm).2.2.2 rfl, (units_ok.1 hm).2.1⟩

/-! ## Usage -/

theorem entryByIdempotency_mem {db : Db} {tenantId key : String} {e : EntryRow}
    (h : db.entryByIdempotency tenantId key = some e) :
    e ∈ db.entries.rows ∧ e.tenantId = tenantId ∧ e.idempotencyKey = key :=
  ⟨List.mem_of_find?_eq_some h, by simpa using List.find?_some h⟩

theorem usageByProviderEvent_mem {db : Db} {tenantId event operation : String} {e : EntryRow}
    (h : db.usageByProviderEvent tenantId event operation = some e) :
    e ∈ db.entries.rows ∧ e.tenantId = tenantId ∧ e.usageEvent = some (event, operation) :=
  ⟨List.mem_of_find?_eq_some h, by simpa using List.find?_some h⟩

theorem replayOrConflict_ok {e : EntryRow} {hash : String} {m : LedgerMutation} :
    replayOrConflict e hash = .ok m ↔ e.payloadHash = hash ∧ m = ⟨entry e, true⟩ := by
  unfold replayOrConflict
  split
  · next h => simp [h]
  · next h =>
    simp only [ne_eq, not_not] at h
    simp [h, eq_comm]

/-- The entry answers for the usage: it carries its key or its provider event. -/
def Answers (e : EntryRow) (usage : UsageInput Int) : Prop :=
  e.tenantId = usage.tenantId ∧
    (e.idempotencyKey = usage.idempotencyKey ∨ e.usageEvent = some (usage.providerEventId, usage.operation))

instance (e : EntryRow) (usage : UsageInput Int) : Decidable (Answers e usage) := by
  unfold Answers
  infer_instance

/-- A usage attempt sweeps, and then finds an entry that answers, refuses, or books. -/
theorem attemptUsage_cases {usage : UsageInput Int} {hash : String} {acceptedAt owned : Int} {db db' : Db}
    {attempt : Except LedgerError LedgerMutation}
    (h : attemptUsageInTransaction B db usage hash acceptedAt owned = .ok (attempt, db')) :
    ∃ n db₁, reconcileExpiredPeriodsInTransaction B acceptedAt db = .ok (n, db₁) ∧
      ((∃ e ∈ db₁.entries.rows, Answers e usage ∧ e.payloadHash = hash ∧ attempt = .ok ⟨entry e, true⟩ ∧
          db' = db₁) ∨
        (∃ error, attempt = .error error ∧ db' = db₁) ∨
        ∃ row, insertEntry db₁ (usageEntry usage hash acceptedAt) = .ok (row, db') ∧
          attempt = .ok ⟨entry row, false⟩ ∧
          usage.amountUnits ≤ availableInPeriod B db₁ usage.tenantId usage.periodId + owned) := by
  simp only [attemptUsageInTransaction, bind_ok] at h
  obtain ⟨⟨n, db₁⟩, hsweep, h⟩ := h
  refine ⟨n, db₁, hsweep, ?_⟩
  split at h
  · next e he =>
    simp only [bind_ok, pure_ok, Prod.mk.injEq, replayOrConflict_ok] at h
    obtain ⟨m, ⟨hhash, rfl⟩, rfl, rfl⟩ := h
    obtain ⟨hmem, ht, hkey⟩ := entryByIdempotency_mem he
    exact .inl ⟨e, hmem, ⟨ht, .inl hkey⟩, hhash, rfl, rfl⟩
  split at h
  · next e he =>
    simp only [bind_ok, pure_ok, Prod.mk.injEq, replayOrConflict_ok] at h
    obtain ⟨m, ⟨hhash, rfl⟩, rfl, rfl⟩ := h
    obtain ⟨hmem, ht, hev⟩ := usageByProviderEvent_mem he
    exact .inl ⟨e, hmem, ⟨ht, .inr hev⟩, hhash, rfl, rfl⟩
  right
  unfold admitUsage at h
  split at h
  · cases h
  simp only at h
  split at h
  · simp only [Except.ok.injEq, Prod.mk.injEq] at h
    exact .inl ⟨_, h.1.symm, h.2.symm⟩
  simp only [bind_ok, units_ok] at h
  obtain ⟨o, ⟨rfl, -⟩, h⟩ := h
  split at h
  · simp only [pure_ok, Prod.mk.injEq] at h
    exact .inl ⟨_, h.1.symm, h.2.symm⟩
  · next hle =>
    simp only [bind_ok, pure_ok, Prod.mk.injEq] at h
    obtain ⟨⟨row, db₂⟩, hins, hrow, hdb⟩ := h
    subst hrow hdb
    exact .inr ⟨row, hins, rfl, by omega⟩

/-! ## Transactions -/

theorem transaction_congr {α : Type} {db : Db} {run run' : Db → Except LedgerError (α × Db)} (h : run db = run' db) :
    transaction db run = transaction db run' := by
  simp only [transaction, h]

/-- A transaction rolls back, or commits. -/
theorem transaction_cases {α : Type} {db : Db} {run : Db → Except LedgerError (α × Db)}
    {out : Except LedgerError α × Db} (h : transaction db run = out) :
    (∃ e, run db = .error e ∧ out = (.error e, db)) ∨ ∃ v db', run db = .ok (v, db') ∧ out = (.ok v, db') := by
  unfold transaction at h
  split at h
  · next v db' hr => exact .inr ⟨v, db', hr, h.symm⟩
  · next e hr => exact .inl ⟨e, hr, h.symm⟩

theorem transaction_snd {α : Type} {db : Db} {run : Db → Except LedgerError (α × Db)} {P : Db → Prop}
    (h₀ : P db) (h : ∀ v db', run db = .ok (v, db') → P db') : P (transaction db run).2 := by
  unfold transaction
  split
  · next v db' hr => exact h v db' hr
  · exact h₀

theorem transaction_eq_self {α : Type} {db : Db} {run : Db → Except LedgerError (α × Db)}
    (h : ∀ v db', run db = .ok (v, db') → db' = db) : (transaction db run).2 = db := by
  obtain ⟨e, -, ho⟩ | ⟨v, db', hr, ho⟩ := transaction_cases (rfl : transaction db run = _)
  · rw [ho]
  · rw [ho]
    exact h v db' hr

@[simp] theorem throwing_snd {α : Type} (o : Except LedgerError (Except LedgerError α) × Db) :
    (throwing o).2 = o.2 := by
  unfold throwing
  split <;> rfl

/-! ## The methods that settle nothing -/

theorem ensurePeriod_steps {db db' : Db} {t p : String} {s e c : Int} {period : PeriodRow}
    (ht : Normalized 512 t) (hp : Normalized 512 p)
    (h : ensurePeriod db t p s e c = .ok (period, db')) : Steps B u db db' := by
  unfold ensurePeriod at h
  split at h
  · cases h
  next hlt =>
  simp only at h
  split at h
  · cases h
  split at h
  · cases h
  simp only [Except.ok.injEq, Prod.mk.injEq] at h
  obtain ⟨-, h⟩ := h
  split at h
  · next periods hins =>
    subst h
    have hse : s < e := by omega
    exact .single (.period ⟨t, p, s, e, c⟩ periods hse ht hp hins)
  · subst h
    exact .refl

theorem grantAllowance_steps (input : GrantInput (Option Int)) (now : Nat → Int) (db : Db) :
    Steps B u db (grantAllowance B input now db).2 := by
  refine transaction_snd .refl fun v db' h => ?_
  simp only [bind_ok] at h
  obtain ⟨n, hn, h⟩ := h
  obtain ⟨ht, hp, hpos⟩ := GrantInput.normalize_ok hn
  split at h
  · simp only [bind_ok, pure_ok, Prod.mk.injEq] at h
    obtain ⟨m, -, -, rfl⟩ := h
    exact .refl
  simp only [bind_ok, pure_ok, Prod.mk.injEq] at h
  obtain ⟨⟨period, db₁⟩, h₁, -, -, ⟨row, db₂⟩, h₂, -, rfl⟩ := h
  exact (ensurePeriod_steps ht hp h₁).tail (.book _ row _ (.grant _ rfl rfl hpos) h₂)

theorem adjustAllowance_steps (input : AdjustInput (Option Int)) (now : Nat → Int) (db : Db) :
    Steps B u db (adjustAllowance B input now db).2 := by
  refine transaction_snd .refl fun v db' h => ?_
  simp only [bind_ok] at h
  obtain ⟨n, hn, h⟩ := h
  split at h
  · cases h
  split at h
  · simp only [bind_ok, pure_ok, Prod.mk.injEq] at h
    obtain ⟨m, -, -, rfl⟩ := h
    exact .refl
  split at h
  · cases h
  simp only [bind_ok] at h
  obtain ⟨-, -, h⟩ := h
  split at h
  · cases h
  next hav =>
  simp only [bind_ok, pure_ok, Prod.mk.injEq] at h
  obtain ⟨⟨row, db₁⟩, h₁, -, rfl⟩ := h
  have : 0 ≤ availableInPeriod B db n.tenantId n.periodId := by unfold availableInPeriod; omega
  refine .single (.book _ row _ (.adjustment _ rfl rfl ?_) h₁)
  simp only
  omega

theorem recordUsage_steps (input : UsageInput (Option Int)) (now : Nat → Int) (db : Db) :
    Steps B u db (recordUsage B input now db).2 := by
  simp only [recordUsage, throwing_snd]
  refine transaction_snd .refl fun v db' h => ?_
  simp only [bind_ok] at h
  obtain ⟨at_, -, n, hn, h⟩ := h
  obtain ⟨k, db₁, hsweep, h⟩ := attemptUsage_cases h
  rcases h with ⟨e, -, -, -, -, rfl⟩ | ⟨e, -, rfl⟩ | ⟨row, hins, -, hle⟩
  · exact sweep_steps hsweep
  · exact sweep_steps hsweep
  · have := UsageInput.normalize_ok hn
    refine (sweep_steps hsweep).tail (.book _ row _ (.usage _ rfl rfl ?_ ?_) hins)
    all_goals
      simp only [usageEntry]
      omega

theorem control_steps (input : ControlInput (Option Int)) {kind : EntryKind}
    (hkind : kind = .suspend ∨ kind = .resume) (now : Nat → Int) (db : Db) :
    Steps B u db (control B input kind now db).2 := by
  refine transaction_snd .refl fun v db' h => ?_
  simp only [bind_ok] at h
  obtain ⟨n, -, h⟩ := h
  split at h
  · simp only [bind_ok, pure_ok, Prod.mk.injEq] at h
    obtain ⟨m, -, -, rfl⟩ := h
    exact .refl
  simp only [bind_ok, pure_ok, Prod.mk.injEq] at h
  obtain ⟨⟨row, db₁⟩, hins, -, rfl⟩ := h
  rcases hkind with rfl | rfl
  · -- The pause and the entry touch different tables: pause first, so that the
    -- tenant has nothing open when the suspension is booked.
    simp only [if_true]
    refine .tail (.single (.pause (fun w => w.tenantId = n.tenantId ∧ w.isOpen) .suspended (now 2) fun w hw => ?_))
      (.book _ row _ ?_ (insertEntry_updateWork hins))
    · simp only [decide_eq_true_eq] at hw
      exact hw.2
    · refine .suspend rfl rfl fun w hw ht => ?_
      simp only [Db.updateWork, Table.rows_update, List.mem_map] at hw
      obtain ⟨v, -, rfl⟩ := hw
      by_cases hv : v.tenantId = n.tenantId ∧ v.isOpen = true
      · rw [if_pos (decide_eq_true hv)]
        rfl
      · simp only [hv, decide_false, Bool.false_eq_true, if_false] at ht ⊢
        by_contra hne
        exact hv ⟨ht, by simpa using hne⟩
  · simp only [reduceCtorEq, if_false]
    exact .single (.book _ row _ (.resume rfl rfl) hins)

theorem suspendTenant_steps (input : ControlInput (Option Int)) (now : Nat → Int) (db : Db) :
    Steps B u db (suspendTenant B input now db).2 :=
  control_steps input (.inl rfl) now db

theorem resumeTenant_steps (input : ControlInput (Option Int)) (now : Nat → Int) (db : Db) :
    Steps B u db (resumeTenant B input now db).2 :=
  control_steps input (.inr rfl) now db

theorem admitPaidWork_steps (input : AdmitInput (Option Int)) (now : Nat → Int) (id : Uuid) (db : Db) :
    Steps B (some (.admission input id)) db (admitPaidWork B input now id.text db).2 := by
  refine transaction_snd .refl fun v db' h => ?_
  simp only [bind_ok] at h
  obtain ⟨n, hn, ⟨k, db₁⟩, hsweep, h⟩ := h
  refine (sweep_steps hsweep).trans ?_
  split at h
  · next e he =>
    split at h
    · cases h
    split at h
    · simp only [bind_ok, pure_ok, Prod.mk.injEq] at h
      obtain ⟨⟨row, db₂⟩, h₂, r, -, -, rfl⟩ := h
      exact evaluateWork_steps h₂
    · simp only [bind_ok, pure_ok, Prod.mk.injEq] at h
      obtain ⟨r, -, -, rfl⟩ := h
      exact .refl
  split at h
  · cases h
  next work hins =>
  simp only [bind_ok, pure_ok, Prod.mk.injEq] at h
  obtain ⟨⟨row, db₂⟩, h₂, -, rfl⟩ := h
  obtain ⟨w, hw, h₂⟩ := evaluateWork_ok.1 h₂
  have hmem : capturedRow id.text n (payloadHash B.sha256 n.payload) (now 2) ∈ work.rows := by
    rw [(Table.insert?_eq_some.1 hins).2]
    simp
  have hfind : Db.workById { db₁ with work := work } _ = _ := workById_of_mem hmem
  simp only [capturedRow] at hfind hw
  rw [hfind] at hw
  obtain rfl := Option.some.inj hw
  rw [if_pos (.inl rfl)] at h₂
  obtain ⟨-, rfl⟩ := h₂
  exact .single (.capture _ work _ (now 2) ⟨input, id, n, now 0, now 2, rfl, hn, rfl⟩ hins rfl)

theorem resumePaused_steps (tenantId : String) (at_ : Int) (db : Db) :
    Steps B u db (resumePaused B tenantId at_ db).2 := by
  refine transaction_snd .refl fun v db' h => ?_
  simp only [bind_ok] at h
  obtain ⟨t, -, now, -, ⟨k, db₁⟩, hsweep, h⟩ := h
  exact (sweep_steps hsweep).trans (evaluateAll_steps h)

theorem reconcileExpiredPeriods_steps (at_ : Int) (db : Db) :
    Steps B u db (reconcileExpiredPeriods B at_ db).2 := by
  refine transaction_snd .refl fun v db' h => ?_
  simp only [bind_ok] at h
  obtain ⟨now, -, h⟩ := h
  exact sweep_steps h

theorem reconcileExpiredPaidWork_steps (at_ : Int) (db : Db) :
    Steps B u db (reconcileExpiredPaidWork B at_ db).2 := by
  refine transaction_snd .refl fun v db' h => ?_
  simp only [bind_ok] at h
  obtain ⟨now, -, h⟩ := h
  exact reclaim_steps h

/-- A granted claim: the row was ready and now carries the worker and the token. -/
theorem claim_write {w : PaidWorkRow} {db : Db} {p : PaidWorkRow → Bool} {owner : String} {token : Uuid}
    {leaseUntil now : Int} {hg} (hw : w ∈ db.work.rows) (hp : p w = true) (hid : ∀ v, p v = true → v.id = w.id)
    (hs : w.state = .ready) (ho : Normalized 512 owner) :
    Write B (some (.lease token)) db (db.updateWork p (·.leased owner token.text leaseUntil now) hg) := by
  rw [updateWork_mine hw hp hid]
  exact .move w _ _ hw (.claim owner token leaseUntil now hs rfl ho)

theorem selectWork_mem {db : Db} {p : PaidWorkRow → Bool} {w : PaidWorkRow} :
    w ∈ selectWork db p ↔ w ∈ db.work.rows ∧ p w = true := by
  simp [selectWork, List.mem_insertionSort]

theorem selectWork_head {db : Db} {p : PaidWorkRow → Bool} {w : PaidWorkRow}
    (h : (selectWork db p).head? = some w) : w ∈ db.work.rows ∧ p w = true :=
  selectWork_mem.1 (List.mem_of_mem_head? (by simpa using h))

theorem claimNextPaidWork_steps (tenantId workerId : String) (leaseMs at_ : Int) (token : Uuid) (db : Db) :
    Steps B (some (.lease token)) db (claimNextPaidWork B tenantId workerId leaseMs at_ token.text db).2 := by
  refine transaction_snd .refl fun v db' h => ?_
  simp only [bind_ok] at h
  obtain ⟨t, -, o, ho, now, -, lease, -, ⟨k₁, db₁⟩, h₁, ⟨k₂, db₂⟩, h₂, h⟩ := h
  refine (reclaim_steps h₁).trans ((sweep_steps h₂).trans ?_)
  split at h
  · simp only [pure_ok, Prod.mk.injEq] at h
    obtain ⟨-, rfl⟩ := h
    exact .refl
  next w hw =>
  obtain ⟨hmem, hw⟩ := selectWork_head hw
  simp only [decide_eq_true_eq] at hw
  have hid : ∀ v : PaidWorkRow, decide (v.id = w.id ∧ v.state = .ready) = true → v.id = w.id := by
    intro v hv
    simp only [decide_eq_true_eq] at hv
    exact hv.1
  have hself : decide (w.id = w.id ∧ w.state = .ready) = true := by simp [hw.2]
  split at h
  · simp only [bind_ok, pure_ok, Prod.mk.injEq] at h
    obtain ⟨r, -, -, rfl⟩ := h
    exact .single (claim_write hmem hself hid hw.2 (required_normalized ho))
  · simp only [pure_ok, Prod.mk.injEq] at h
    obtain ⟨-, rfl⟩ := h
    exact .single (claim_write hmem hself hid hw.2 (required_normalized ho))

theorem claimPaidWork_steps (workId tenantId workerId : String) (leaseMs at_ : Int) (token : Uuid) (db : Db) :
    Steps B (some (.lease token)) db (claimPaidWork B workId tenantId workerId leaseMs at_ token.text db).2 := by
  refine transaction_snd .refl fun v db' h => ?_
  simp only [bind_ok] at h
  obtain ⟨wid, -, t, -, o, ho, now, -, lease, -, h⟩ := h
  split at h
  · simp only [pure_ok, Prod.mk.injEq] at h
    obtain ⟨-, rfl⟩ := h
    exact .refl
  split at h
  · simp only [pure_ok, Prod.mk.injEq] at h
    obtain ⟨-, rfl⟩ := h
    exact .refl
  simp only [bind_ok] at h
  obtain ⟨⟨k₁, db₁⟩, h₁, ⟨k₂, db₂⟩, h₂, h⟩ := h
  have hsteps : Steps B (some (.lease token)) db db₂ := by
    refine .trans ?_ (sweep_steps h₂)
    split at h₁
    · exact reclaim_steps h₁
    · simp only [Except.ok.injEq, Prod.mk.injEq] at h₁
      obtain ⟨-, rfl⟩ := h₁
      exact .refl
  refine hsteps.trans ?_
  split at h
  · simp only [pure_ok, Prod.mk.injEq] at h
    obtain ⟨-, rfl⟩ := h
    exact .refl
  next w hw =>
  split at h
  · simp only [pure_ok, Prod.mk.injEq] at h
    obtain ⟨-, rfl⟩ := h
    exact .refl
  next hready =>
  simp only [not_or, ne_eq, not_not] at hready
  obtain ⟨hmem, rfl⟩ := workById_mem hw
  have hid : ∀ v : PaidWorkRow, decide (v.id = w.id ∧ v.tenantId = t ∧ v.state = .ready) = true → v.id = w.id := by
    intro v hv
    simp only [decide_eq_true_eq] at hv
    exact hv.1
  have hself : decide (w.id = w.id ∧ w.tenantId = t ∧ w.state = .ready) = true := by simp [hready]
  split at h
  · simp only [bind_ok, pure_ok, Prod.mk.injEq] at h
    obtain ⟨r, -, -, rfl⟩ := h
    exact .single (claim_write hmem hself hid hready.2 (required_normalized ho))
  · simp only [pure_ok, Prod.mk.injEq] at h
    obtain ⟨-, rfl⟩ := h
    exact .single (claim_write hmem hself hid hready.2 (required_normalized ho))

theorem renewPaidWorkLease_steps (input : LeaseInput) (leaseMs : Int) (now : Nat → Int) (db : Db) :
    Steps B u db (renewPaidWorkLease input leaseMs now db).2 := by
  refine transaction_snd .refl fun v db' h => ?_
  simp only [bind_ok] at h
  obtain ⟨wid, -, t, -, o, -, k, -, lease, -, h⟩ := h
  split at h
  · cases h
  simp only [bind_ok, pure_ok, Prod.mk.injEq] at h
  obtain ⟨r, -, -, rfl⟩ := h
  by_cases hex : ∃ w ∈ db.work.rows, w.id = wid ∧ w.tenantId = t ∧ w.state = .processing ∧
      w.heldBy o k = true ∧ w.leaseLive (now 0) = true
  · obtain ⟨w, hmem, rfl, hw⟩ := hex
    rw [updateWork_mine hmem (by simpa using hw) fun v hv => by simp only [decide_eq_true_eq] at hv; exact hv.1]
    exact .single (.move w _ _ hmem (.renew (now 0 + lease) (now 0) hw.2.1))
  · rw [updateWork_none fun v hv => by simpa using fun h => not_and.1 (not_exists.1 hex v) hv h]

theorem releasePaidWorkForRetry_steps (input : LeaseInput) (now : Nat → Int) (db : Db) :
    Steps B u db (releasePaidWorkForRetry B input now db).2 := by
  refine transaction_snd .refl fun v db' h => ?_
  simp only [bind_ok] at h
  obtain ⟨wid, -, t, -, o, -, k, -, h⟩ := h
  split at h
  · cases h
  next w hw =>
  obtain ⟨hmem, rfl⟩ := workById_mem hw
  split at h
  · cases h
  next ht =>
  split at h
  · simp only [pure_ok, Prod.mk.injEq] at h
    obtain ⟨-, rfl⟩ := h
    exact .refl
  next hs =>
  split at h
  · cases h
  next hheld =>
  simp only [not_or, ne_eq, not_not] at ht hs hheld
  have hid : ∀ v : PaidWorkRow, decide (v.id = w.id ∧ v.tenantId = t ∧ v.state = .processing ∧
      v.heldBy o k = true) = true → v.id = w.id := by
    intro v hv
    simp only [decide_eq_true_eq] at hv
    exact hv.1
  have hself : decide (w.id = w.id ∧ w.tenantId = t ∧ w.state = .processing ∧ w.heldBy o k = true) = true := by
    simp [ht, hs, PaidWorkRow.heldBy, hheld]
  split at h
  · simp only [bind_ok, pure_ok, Prod.mk.injEq] at h
    obtain ⟨r, -, -, rfl⟩ := h
    rw [updateWork_mine hmem hself hid]
    exact .single (.move w _ _ hmem (.cancel w.cancellationRequestedAt (now 0) (by simp [hs])))
  · simp only [bind_ok, pure_ok, Prod.mk.injEq] at h
    obtain ⟨⟨row, db₁⟩, h₁, -, rfl⟩ := h
    rw [updateWork_mine hmem hself hid] at h₁
    exact free_steps hmem hs h₁

theorem cancelPaidWork_steps (input : CancelInput) (now : Nat → Int) (db : Db) :
    Steps B u db (cancelPaidWork input now db).2 := by
  refine transaction_snd .refl fun v db' h => ?_
  simp only [bind_ok] at h
  obtain ⟨wid, -, t, -, h⟩ := h
  split at h
  · cases h
  next w hw =>
  obtain ⟨hmem, rfl⟩ := workById_mem hw
  split at h
  · cases h
  next ht =>
  simp only [ne_eq, not_not] at ht
  split at h
  · simp only [pure_ok, Prod.mk.injEq] at h
    obtain ⟨-, rfl⟩ := h
    exact .refl
  next hterm =>
  split at h
  · next hs =>
    simp only [bind_ok, pure_ok, Prod.mk.injEq] at h
    obtain ⟨r, -, -, rfl⟩ := h
    rw [updateWork_mine hmem (by simp [ht, hs.1]) fun v hv => by simp only [decide_eq_true_eq] at hv; exact hv.1]
    exact .single (.move w _ _ hmem (.requestCancel (now 0) (now 1) hs.1))
  split at h
  · cases h
  simp only [bind_ok, pure_ok, Prod.mk.injEq] at h
  obtain ⟨r, -, -, rfl⟩ := h
  have hself : w.state = .captured ∨ w.state = .ready ∨ w.state = .paused ∨ w.state = .processing := by
    cases hs : w.state <;> simp [hs] at hterm ⊢
  rw [updateWork_mine hmem (by simp [ht, hself]) fun v hv => by simp only [decide_eq_true_eq] at hv; exact hv.1]
  exact .single (.move w _ _ hmem (.cancel none (now 0) (by simp only [not_or] at hterm; exact hterm.1)))

/-! ## Completions -/

/-- Entries are only added. -/
theorem Write.lastSequence_le {db db' : Db} (h : Write B u db db') : db.lastSequence ≤ db'.lastSequence := by
  cases h with
  | book input row _ _ hins =>
    obtain ⟨-, entries, -, rfl⟩ := insertEntry_ok.1 hins
    exact Nat.le_succ _
  | _ => subst_vars; exact le_refl _

theorem Steps.lastSequence_le {db db' : Db} (h : Steps B u db db') : db.lastSequence ≤ db'.lastSequence := by
  induction h with
  | refl => exact le_refl _
  | tail _ hw ih => exact ih.trans hw.lastSequence_le

/-- The entries settled work points at are there. -/
def PointsBack (db : Db) : Prop :=
  ∀ w ∈ db.work.rows, ∀ n, w.usageEntrySequence = some n → n ≤ db.lastSequence

theorem Charge.congr {owned : Int} {v w : PaidWorkRow} {db db' : Db} {e : EntryRow} (ht : v.tenantId = w.tenantId)
    (hp : v.periodId = w.periodId) (h : Charge B owned w db e db') : Charge B owned v db e db' := by
  cases h with
  | replay _ he => exact .replay e he
  | book input _ _ hkind ht' hp' hneg hle hins =>
    rw [← ht] at ht' hle
    rw [← hp] at hp' hle
    exact .book input e db' hkind ht' hp' hneg hle hins

/-- The usage a completion attempts is a charge on the row's period. -/
theorem charge_of_attempt {w : PaidWorkRow} {usage : UsageInput Int} {hash : String} {acceptedAt owned : Int}
    {db db' : Db} {m : LedgerMutation} (ht : usage.tenantId = w.tenantId) (hp : usage.periodId = w.periodId)
    (hpos : 0 ≤ usage.amountUnits)
    (h : attemptUsageInTransaction B db usage hash acceptedAt owned = .ok (.ok m, db')) :
    ∃ n db₁ e, reconcileExpiredPeriodsInTransaction B acceptedAt db = .ok (n, db₁) ∧
      Charge B owned w db₁ e db' ∧ m.entry.sequence = e.sequence ∧ db'.work = db₁.work := by
  obtain ⟨n, db₁, hsweep, h⟩ := attemptUsage_cases h
  rcases h with ⟨e, he, -, -, hm, rfl⟩ | ⟨e, hm, -⟩ | ⟨row, hins, hm, hle⟩
  · obtain rfl := Except.ok.inj hm
    exact ⟨n, _, e, hsweep, .replay e he, rfl, rfl⟩
  · cases hm
  · obtain rfl := Except.ok.inj hm
    refine ⟨n, db₁, row, hsweep, .book _ row _ rfl ht (congrArg some hp) ?_ ?_ hins, rfl, insertEntry_work hins⟩
    · simp only [usageEntry]
      omega
    · simp only [usageEntry, Int.neg_neg, ← ht, ← hp]
      exact hle

/-- A usage attempt that is refused leaves the sweep. -/
theorem sweep_of_refused {usage : UsageInput Int} {hash : String} {acceptedAt owned : Int} {db db' : Db}
    {e : LedgerError} (h : attemptUsageInTransaction B db usage hash acceptedAt owned = .ok (.error e, db')) :
    ∃ n, reconcileExpiredPeriodsInTransaction B acceptedAt db = .ok (n, db') := by
  obtain ⟨n, db₁, hsweep, h⟩ := attemptUsage_cases h
  rcases h with ⟨e, -, -, -, hm, -⟩ | ⟨e, -, rfl⟩ | ⟨row, -, hm, -⟩
  · cases hm
  · exact ⟨n, hsweep⟩
  · cases hm

/-- An attempt that answers for a row settled before books nothing: a new
entry would not be the one the row points at. -/
theorem sweep_of_replay {w : PaidWorkRow} {usage : UsageInput Int} {hash : String} {acceptedAt owned : Int}
    {db db' : Db} {m : LedgerMutation} (hback : PointsBack db) (hw : w ∈ db.work.rows)
    (hseq : w.usageEntrySequence = some m.entry.sequence)
    (h : attemptUsageInTransaction B db usage hash acceptedAt owned = .ok (.ok m, db')) :
    ∃ n, reconcileExpiredPeriodsInTransaction B acceptedAt db = .ok (n, db') := by
  obtain ⟨n, db₁, hsweep, h⟩ := attemptUsage_cases h
  rcases h with ⟨e, -, -, -, -, rfl⟩ | ⟨e, hm, -⟩ | ⟨row, hins, hm, -⟩
  · exact ⟨n, hsweep⟩
  · cases hm
  · obtain rfl := Except.ok.inj hm
    have hold := hback w hw _ hseq
    have hmono := (sweep_steps hsweep : Steps B none db db₁).lastSequence_le
    obtain ⟨rfl, -⟩ := insertEntry_ok.1 hins
    simp only [entry, EntryInput.row] at hold
    omega

theorem replayCompletion_sweeps {w : PaidWorkRow} {owner token : String} {usage : UsageInput Int} {at_ : Int}
    {db db' : Db} {r : Except LedgerError Completion} (hback : PointsBack db) (hw : w ∈ db.work.rows)
    (h : replayCompletion B db w owner token usage at_ = .ok (r, db')) :
    ∃ n, reconcileExpiredPeriodsInTransaction B at_ db = .ok (n, db') := by
  simp only [replayCompletion] at h
  split at h
  · cases h
  split at h
  · cases h
  simp only [bind_ok] at h
  obtain ⟨⟨attempt, db₁⟩, hattempt, h⟩ := h
  cases attempt with
  | error e =>
    simp only [pure_ok, Prod.mk.injEq] at h
    obtain ⟨-, rfl⟩ := h
    exact sweep_of_refused hattempt
  | ok m =>
    simp only at h
    split at h
    · cases h
    next hseq =>
    simp only [pure_ok, Prod.mk.injEq] at h
    obtain ⟨-, rfl⟩ := h
    exact sweep_of_replay hback hw (by simpa using hseq) hattempt

theorem settleLease_cases {w : PaidWorkRow} {owner token : String} {usage : UsageInput Int} {at_ : Int}
    {db db' : Db} {r : Except LedgerError Completion} (hw : w ∈ db.work.rows) (ht : usage.tenantId = w.tenantId)
    (hp : usage.periodId = w.periodId) (hpos : 0 ≤ usage.amountUnits)
    (h : settleLease B db w owner token usage at_ = .ok (r, db')) :
    ∃ n db₁, reconcileExpiredPeriodsInTransaction B at_ db = .ok (n, db₁) ∧
      (db' = db₁ ∨ w.state = .processing ∧ w.heldBy owner token = true ∧ w.leaseLive at_ = true ∧
        Settle B w db₁ .lease db') := by
  simp only [settleLease] at h
  split at h
  · cases h
  next hstate =>
  split at h
  · cases h
  next hheld =>
  split at h
  · cases h
  next hlive =>
  simp only [not_or, ne_eq, not_not, Bool.not_eq_true', Bool.not_eq_false] at hstate hheld hlive
  have hheld' : w.heldBy owner token = true := by simp [PaidWorkRow.heldBy, hheld]
  simp only [bind_ok] at h
  obtain ⟨⟨attempt, db₁⟩, hattempt, h⟩ := h
  cases attempt with
  | error e =>
    simp only [pure_ok, Prod.mk.injEq] at h
    obtain ⟨-, rfl⟩ := h
    obtain ⟨n, hsweep⟩ := sweep_of_refused hattempt
    exact ⟨n, _, hsweep, .inl rfl⟩
  | ok m =>
    simp only at h
    split at h
    · cases h
    simp only [bind_ok, theWork_ok] at h
    obtain ⟨r, hr, h⟩ := h
    split at h
    · cases h
    simp only [pure_ok, Prod.mk.injEq] at h
    obtain ⟨-, rfl⟩ := h
    obtain ⟨n, db₀, e, hsweep, hcharge, hseq, hwork⟩ := charge_of_attempt ht hp hpos hattempt
    have hw₀ := sweep_mem hsweep hw (by simp [PaidWorkRow.isOpen, hstate])
    refine ⟨n, db₀, hsweep, .inr ⟨hstate, hheld', hlive, ?_⟩⟩
    rw [updateWork_mine (hwork ▸ hw₀) (by simp [hstate, hheld', hlive]) fun v hv => by
      simp only [decide_eq_true_eq] at hv
      exact hv.1, hseq]
    exact .lease _ _ _ _ e db₁ hw₀ hstate hheld' hlive hcharge

theorem settleReceipt_cases {w : PaidWorkRow} {receipt : String} {usage : UsageInput Int} {at_ : Int}
    {db db' : Db} {r : Except LedgerError Completion} (hback : PointsBack db) (hw : w ∈ db.work.rows)
    (ht : usage.tenantId = w.tenantId) (hp : usage.periodId = w.periodId) (hpos : 0 ≤ usage.amountUnits)
    (h : settleReceipt B db w w.tenantId receipt usage at_ = .ok (r, db')) :
    ∃ n db₁, reconcileExpiredPeriodsInTransaction B at_ db = .ok (n, db₁) ∧
      (db' = db₁ ∨ w.state ≠ .done ∧ ∃ v ∈ db₁.work.rows, v.id = w.id ∧ Settle B v db₁ .receipt db') := by
  simp only [settleReceipt, bind_ok] at h
  obtain ⟨⟨attempt, db₁⟩, hattempt, h⟩ := h
  cases attempt with
  | error e =>
    simp only [pure_ok, Prod.mk.injEq] at h
    obtain ⟨-, rfl⟩ := h
    obtain ⟨n, hsweep⟩ := sweep_of_refused hattempt
    exact ⟨n, _, hsweep, .inl rfl⟩
  | ok m =>
    simp only at h
    split at h
    · split at h
      · cases h
      next hseq =>
      simp only [pure_ok, Prod.mk.injEq] at h
      obtain ⟨-, rfl⟩ := h
      obtain ⟨n, hsweep⟩ := sweep_of_replay hback hw (by simpa using hseq) hattempt
      exact ⟨n, _, hsweep, .inl rfl⟩
    next hdone =>
    simp only [bind_ok, theWork_ok] at h
    obtain ⟨r, hr, h⟩ := h
    split at h
    · cases h
    simp only [pure_ok, Prod.mk.injEq] at h
    obtain ⟨-, rfl⟩ := h
    obtain ⟨n, db₀, e, hsweep, hcharge, hseq, hwork⟩ := charge_of_attempt ht hp hpos hattempt
    -- The sweep may have paused the row; it is still not done.
    obtain ⟨v, hv, hvw⟩ := sweep_row hsweep hw
    have hid : v.id = w.id ∧ v.tenantId = w.tenantId ∧ v.periodId = w.periodId ∧ v.state ≠ .done := by
      rcases hvw with rfl | ⟨-, rfl⟩
      · exact ⟨rfl, rfl, rfl, hdone⟩
      · exact ⟨rfl, rfl, rfl, by simp [PaidWorkRow.unleased]⟩
    refine ⟨n, db₀, hsweep, .inr ⟨hdone, v, hv, hid.1, ?_⟩⟩
    rw [updateWork_mine (hwork ▸ hv) (by simp [hid]) fun r hr => by
      simp only [decide_eq_true_eq] at hr
      exact hr.1.trans hid.1.symm, hseq]
    exact .receipt _ _ _ e db₁ hv hid.2.2.2 (hcharge.congr hid.2.1 hid.2.2.1)

/-- What `completePaidWork` can leave: the database as it was, a sweep, or a
sweep and the settlement of the row that carries exactly the presented claim. -/
theorem completePaidWork_cases (input : CompleteInput) (now : Nat → Int) {db : Db} (hback : PointsBack db) :
    let after := (completePaidWork B input now db).2
    after = db ∨ ∃ n db₁, reconcileExpiredPeriodsInTransaction B (now 0) db = .ok (n, db₁) ∧
      (after = db₁ ∨ ∃ w ∈ db.work.rows, w.id = Js.trim input.workId ∧ w.state = .processing ∧
        w.heldBy (Js.trim input.leaseOwner) (Js.trim input.leaseToken) = true ∧ w.leaseLive (now 0) = true ∧
        Settle B w db₁ .lease after) := by
  simp only [completePaidWork, throwing_snd]
  generalize hrun : transaction db _ = out
  obtain ⟨e, -, rfl⟩ | ⟨v, db', h, rfl⟩ := transaction_cases hrun
  · exact .inl rfl
  right
  simp only [bind_ok] at h
  obtain ⟨wid, hwid, t, -, h⟩ := h
  split at h
  · cases h
  next w hw =>
  obtain ⟨hmem, rfl⟩ := workById_mem hw
  split at h
  · cases h
  next ht =>
  simp only [ne_eq, not_not] at ht
  simp only [bind_ok] at h
  obtain ⟨event, -, h⟩ := h
  split at h
  · cases h
  simp only [bind_ok, timestamp_ok, required_ok] at h
  obtain ⟨owner, ⟨rfl, -⟩, token, ⟨rfl, -⟩, at_, ⟨rfl, -⟩, usage, husage, h⟩ := h
  obtain ⟨hut, hup, -, -, hpos⟩ := CompleteInput.usage_ok husage
  split at h
  · obtain ⟨n, hsweep⟩ := replayCompletion_sweeps hback hmem h
    exact ⟨n, _, hsweep, .inl rfl⟩
  · obtain ⟨n, db₁, hsweep, h⟩ := settleLease_cases hmem (hut.trans ht.symm) hup hpos h
    refine ⟨n, db₁, hsweep, h.imp_right fun ⟨hstate, hheld, hlive, hsettle⟩ => ?_⟩
    exact ⟨w, hmem, (required_ok.1 hwid).1.symm, hstate, hheld, hlive, hsettle⟩

/-- What `completePaidWorkFromDurableReceipt` can leave: the database as it
was, a sweep, or a sweep and the settlement of a row admitted under the
presented event. -/
theorem receipt_cases (input : ReceiptInput) (now : Nat → Int) {db : Db} (hback : PointsBack db) :
    let after := (completePaidWorkFromDurableReceipt B input now db).2
    after = db ∨ ∃ n db₁, reconcileExpiredPeriodsInTransaction B (now 0) db = .ok (n, db₁) ∧
      (after = db₁ ∨ ∃ w ∈ db.work.rows, w.id = Js.trim input.workId ∧ w.tenantId = Js.trim input.tenantId ∧
        w.providerEventId = Js.trim input.admissionProviderEventId ∧ w.state ≠ .done ∧
        ∃ v ∈ db₁.work.rows, v.id = w.id ∧ Settle B v db₁ .receipt after) := by
  simp only [completePaidWorkFromDurableReceipt, throwing_snd]
  generalize hrun : transaction db _ = out
  obtain ⟨e, -, rfl⟩ | ⟨v, db', h, rfl⟩ := transaction_cases hrun
  · exact .inl rfl
  right
  simp only [bind_ok, timestamp_ok, required_ok] at h
  obtain ⟨wid, ⟨hwid, -⟩, t, ⟨rfl, -⟩, event, ⟨rfl, -⟩, receipt, -, at_, ⟨rfl, -⟩, h⟩ := h
  split at h
  · cases h
  next w hw =>
  obtain ⟨hmem, rfl⟩ := workById_mem hw
  split at h
  · cases h
  next ht =>
  split at h
  · cases h
  next hevent =>
  split at h
  · cases h
  simp only [ne_eq, not_not] at ht hevent
  simp only [bind_ok] at h
  obtain ⟨usage, husage, h⟩ := h
  obtain ⟨hut, hup, -, -, -, hpos, -⟩ := ReceiptInput.usage_ok husage
  rw [← ht] at h hut
  obtain ⟨n, db₁, hsweep, h⟩ := settleReceipt_cases hback hmem hut hup hpos h
  refine ⟨n, db₁, hsweep, h.imp_right fun ⟨hdone, v, hv, hid, hsettle⟩ => ?_⟩
  exact ⟨w, hmem, hwid.symm, ht, hevent, hdone, v, hv, hid, hsettle⟩

/-- Every other method is a sequence of writes. -/
theorem LedgerOp.steps (op : LedgerOp) (hop : op.settles = none) (db : Db) : Steps B op.draw db (op.after B db) := by
  cases op
  all_goals simp only [LedgerOp.after, LedgerOp.run, Prod.map_snd, id_eq]
  case grantAllowance input now => exact grantAllowance_steps input now db
  case adjustAllowance input now => exact adjustAllowance_steps input now db
  case recordUsage input now => exact recordUsage_steps input now db
  case suspendTenant input now => exact suspendTenant_steps input now db
  case resumeTenant input now => exact resumeTenant_steps input now db
  case reconcileExpiredPeriods at_ => exact reconcileExpiredPeriods_steps at_ db
  case admitPaidWork input now id => exact admitPaidWork_steps input now id db
  case resumePaused tenantId at_ => exact resumePaused_steps tenantId at_ db
  case reconcileExpiredPaidWork at_ => exact reconcileExpiredPaidWork_steps at_ db
  case claimNextPaidWork tenantId workerId leaseMs at_ token =>
    exact claimNextPaidWork_steps tenantId workerId leaseMs at_ token db
  case claimPaidWork workId tenantId workerId leaseMs at_ token =>
    exact claimPaidWork_steps workId tenantId workerId leaseMs at_ token db
  case renewPaidWorkLease input leaseMs now => exact renewPaidWorkLease_steps input leaseMs now db
  case releasePaidWorkForRetry input now => exact releasePaidWorkForRetry_steps input now db
  case cancelPaidWork input now => exact cancelPaidWork_steps input now db
  case completePaidWork input now => cases hop
  case completePaidWorkFromDurableReceipt input now => cases hop

end Zenod.Phylax
