/-
Leases fence the work. Work becomes done only by its exact live claim or by a
durable receipt, and then never changes; at most one usage entry is booked on
its behalf; and a token the row no longer carries opens nothing.

The fence is `Lost`: no row of the work carries the token, as its lease or as
the claim it was completed by. Nothing but a claim that draws the very token
again could undo it.
-/
import Zenod.Phylax.Entries

namespace Zenod.Phylax

variable {B : Backend} {u : Option Draw}

/-! ## What a write makes of a row -/

/-- What a write that is no settlement makes of one row. -/
inductive RowStep (B : Backend) (u : Option Draw) (db : Db) (w : PaidWorkRow) : PaidWorkRow → Prop
  | keep : RowStep B u db w w
  | pause (reason : PauseReason) (now : Int) : w.isOpen = true →
      RowStep B u db w (w.unleased .paused (some reason) now)
  | move (w' : PaidWorkRow) : WorkMove B u db w w' → RowStep B u db w w'

/-- The work and period a row stands for. -/
def PaidWorkRow.subject (w : PaidWorkRow) : String × String × String := (w.id, w.tenantId, w.periodId)

theorem RowStep.subject {db : Db} {w w' : PaidWorkRow} (h : RowStep B u db w w') : w'.subject = w.subject := by
  cases h with
  | keep => rfl
  | pause _ _ _ => rfl
  | move _ hmove => cases hmove <;> rfl

theorem RowStep.id {db : Db} {w w' : PaidWorkRow} (h : RowStep B u db w w') : w'.id = w.id :=
  congrArg Prod.fst h.subject

/-- Every row after a write is the step of a row before it, or was just captured. -/
theorem Write.row {db db' : Db} (h : Write B u db db') {w' : PaidWorkRow} (hw' : w' ∈ db'.work.rows) :
    (∃ w ∈ db.work.rows, RowStep B u db w w') ∨
      ∃ row db₁ now, Admitted B u row ∧ db₁.periods = db.periods ∧
        w' = row.evaluated (evaluation B db₁ row now) now := by
  cases h with
  | period _ _ _ _ _ _ => exact .inl ⟨w', hw', .keep⟩
  | book _ _ _ _ hins => exact .inl ⟨w', insertEntry_work hins ▸ hw', .keep⟩
  | pause p reason now hp =>
    simp only [Db.updateWork, Table.rows_update, List.mem_map] at hw'
    obtain ⟨w, hw, rfl⟩ := hw'
    split
    · next hpw => exact .inl ⟨w, hw, .pause reason now (hp w hpw)⟩
    · exact .inl ⟨w, hw, .keep⟩
  | move v g hg hv hmove =>
    simp only [Db.updateWork, Table.rows_update, List.mem_map] at hw'
    obtain ⟨w, hw, rfl⟩ := hw'
    split
    · next hid =>
      obtain rfl := work_ext hw hv (by simpa using hid)
      exact .inl ⟨w, hw, .move _ hmove⟩
    · exact .inl ⟨w, hw, .keep⟩
  | capture row work db₁ now hc hins hdb =>
    subst hdb
    have hrows := (Table.insert?_eq_some.1 hins).2
    simp only [Db.updateWork, Table.rows_update, List.mem_map] at hw'
    obtain ⟨w, hw, rfl⟩ := hw'
    rw [hrows, List.mem_append, List.mem_singleton] at hw
    rcases hw with hw | rfl
    · have hne : w.id ≠ row.id := by
        have := (Table.insert?_eq_some.1 hins).1 w hw
        simp only [Keyed.clash, Bool.or_eq_false_iff, beq_eq_false_iff_ne] at this
        exact this.1
      simp only [hne, decide_false, Bool.false_eq_true, if_false]
      exact .inl ⟨w, hw, .keep⟩
    · simp only [decide_true, if_true]
      exact .inr ⟨w, { db with work := work }, now, hc, rfl, rfl⟩

/-- Every row before a write has its step after it. -/
theorem Write.row_of {db db' : Db} (h : Write B u db db') {w : PaidWorkRow} (hw : w ∈ db.work.rows) :
    ∃ w' ∈ db'.work.rows, RowStep B u db w w' := by
  cases h with
  | period _ _ _ _ _ _ => exact ⟨w, hw, .keep⟩
  | book _ _ _ _ hins => exact ⟨w, insertEntry_work hins ▸ hw, .keep⟩
  | pause p reason now hp =>
    refine ⟨_, List.mem_map_of_mem hw, ?_⟩
    split
    · next hpw => exact .pause reason now (hp w hpw)
    · exact .keep
  | move v g hg hv hmove =>
    refine ⟨_, List.mem_map_of_mem hw, ?_⟩
    split
    · next hid =>
      obtain rfl := work_ext hw hv (by simpa using hid)
      exact .move _ hmove
    · exact .keep
  | capture row work db₁ now hc hins hdb =>
    subst hdb
    obtain ⟨hnew, hrows⟩ := Table.insert?_eq_some.1 hins
    have hw₁ : w ∈ work.rows := by
      rw [hrows]
      exact List.mem_append_left _ hw
    have hne : w.id ≠ row.id := by
      have := hnew w hw
      simp only [Keyed.clash, Bool.or_eq_false_iff, beq_eq_false_iff_ne] at this
      exact this.1
    refine ⟨_, List.mem_map_of_mem hw₁, ?_⟩
    simp only [hne, decide_false, Bool.false_eq_true, if_false]
    exact .keep

/-- What a settlement makes of a row. -/
theorem Settle.row {db db' : Db} {w : PaidWorkRow} {via : Via} (h : LedgerInv db) (hs : Settle B w db via db')
    {v' : PaidWorkRow} (hv' : v' ∈ db'.work.rows) :
    (v' ∈ db.work.rows ∧ v'.id ≠ w.id) ∨
      (v'.id = w.id ∧ v'.state = .done ∧ v'.leaseToken = none ∧
        (v'.completedLeaseToken = w.leaseToken ∨ ∃ receipt, v'.completedLeaseToken = some ("receipt:" ++ receipt))) := by
  cases hs with
  | lease owner token receipt now e db₁ hw hstate hheld hlive hc =>
    simp only [Db.updateWork, Table.rows_update, List.mem_map, (hc.inv h).2.2] at hv'
    obtain ⟨v, hv, rfl⟩ := hv'
    by_cases hid : v.id = w.id
    · simp only [hid, decide_true, if_true]
      simp only [PaidWorkRow.heldBy, decide_eq_true_eq] at hheld
      exact .inr ⟨hid, rfl, rfl, .inl hheld.2.symm⟩
    · simp only [hid, decide_false, Bool.false_eq_true, if_false]
      exact .inl ⟨hv, hid⟩
  | receipt receipt now owned e db₁ hw hdone hc =>
    simp only [Db.updateWork, Table.rows_update, List.mem_map, (hc.inv h).2.2] at hv'
    obtain ⟨v, hv, rfl⟩ := hv'
    by_cases hid : v.id = w.id
    · simp only [hid, decide_true, if_true]
      obtain rfl := work_ext hv hw hid
      have hnone := ((h.work v hv).unsettled hdone).2.1
      refine .inr ⟨hid, rfl, rfl, .inr ⟨receipt, ?_⟩⟩
      simp [PaidWorkRow.receipted, PaidWorkRow.completed, PaidWorkRow.unleased, hnone]
    · simp only [hid, decide_false, Bool.false_eq_true, if_false]
      exact .inl ⟨hv, hid⟩

/-! ## Done is absorbing -/

theorem WorkMove.not_done {db : Db} {w w' : PaidWorkRow} (h : WorkMove B u db w w') :
    w.state ≠ .done ∧ w'.state ≠ .done := by
  have evaluated : ∀ (db : Db) (v : PaidWorkRow) now, (w.evaluated (evaluation B db v now) now).state ≠ .done := by
    intro db v now
    rcases evaluation_cases B db v now with he | he <;> simp [PaidWorkRow.evaluated, PaidWorkRow.unleased, he]
  cases h with
  | evaluate now hs => exact ⟨by rcases hs with hs | hs <;> simp [hs], evaluated _ _ _⟩
  | free now db₁ hs hdb => exact ⟨by simp [hs], evaluated _ _ _⟩
  | claim owner token leaseUntil now hs _ _ => exact ⟨by simp [hs], by simp [PaidWorkRow.leased]⟩
  | renew leaseUntil now hs => exact ⟨by simp [hs], by simp [hs]⟩
  | requestCancel requestedAt now hs => exact ⟨by simp [hs], by simp [hs]⟩
  | cancel requestedAt now hs => exact ⟨hs, by simp [PaidWorkRow.unleased]⟩

theorem RowStep.keep_of_done {db : Db} {w w' : PaidWorkRow} (h : RowStep B u db w w')
    (hd : w.state = .done ∨ w'.state = .done) : w' = w := by
  cases h with
  | keep => rfl
  | pause reason now hopen =>
    rcases hd with hd | hd
    · simp [PaidWorkRow.isOpen, hd] at hopen
    · cases hd
  | move _ hmove =>
    obtain ⟨h₁, h₂⟩ := hmove.not_done
    rcases hd with hd | hd
    · exact absurd hd h₁
    · exact absurd hd h₂

theorem Write.done_mem {db db' : Db} (h : Write B u db db') {w : PaidWorkRow} (hw : w ∈ db.work.rows)
    (hd : w.state = .done) : w ∈ db'.work.rows := by
  obtain ⟨w', hw', hstep⟩ := h.row_of hw
  rwa [hstep.keep_of_done (.inl hd)] at hw'

theorem Write.done_of_mem {db db' : Db} (h : Write B u db db') {w : PaidWorkRow} (hw : w ∈ db'.work.rows)
    (hd : w.state = .done) : w ∈ db.work.rows := by
  rcases h.row hw with ⟨v, hv, hstep⟩ | ⟨row, db₁, now, hc, -, rfl⟩
  · rwa [← hstep.keep_of_done (.inr hd)] at hv
  · have : WorkMove B u db₁ row (row.evaluated (evaluation B db₁ row now) now) := .evaluate now (.inl hc.captured.state)
    exact absurd hd this.not_done.2

theorem Steps.done_of_mem {db db' : Db} (h : Steps B u db db') {w : PaidWorkRow} (hw : w ∈ db'.work.rows)
    (hd : w.state = .done) : w ∈ db.work.rows := by
  induction h with
  | refl => exact hw
  | tail _ hwrite ih => exact ih (hwrite.done_of_mem hw hd)

theorem Settle.mem {db db' : Db} {w : PaidWorkRow} {via : Via} (hs : Settle B w db via db') :
    w ∈ db.work.rows ∧ w.state ≠ .done := by
  cases hs with
  | lease owner token receipt now e db₁ hw hstate _ _ _ => exact ⟨hw, by simp [hstate]⟩
  | receipt receipt now owned e db₁ hw hdone _ => exact ⟨hw, hdone⟩

/-- Every row before a settlement is there after it, but the one it settles. -/
theorem Settle.mem_of_ne {db db' : Db} {w : PaidWorkRow} {via : Via} (h : LedgerInv db) (hs : Settle B w db via db')
    {v : PaidWorkRow} (hv : v ∈ db.work.rows) (hne : v.id ≠ w.id) : v ∈ db'.work.rows := by
  cases hs with
  | lease _ _ _ _ e db₁ _ _ _ _ hc =>
    simp only [Db.updateWork, Table.rows_update, List.mem_map, (hc.inv h).2.2]
    exact ⟨v, hv, by simp [hne]⟩
  | receipt _ _ _ e db₁ _ _ hc =>
    simp only [Db.updateWork, Table.rows_update, List.mem_map, (hc.inv h).2.2]
    exact ⟨v, hv, by simp [hne]⟩

theorem Settle.row_of {db db' : Db} {w : PaidWorkRow} {via : Via} (h : LedgerInv db) (hs : Settle B w db via db')
    {v : PaidWorkRow} (hv : v ∈ db.work.rows) : ∃ v' ∈ db'.work.rows, v'.subject = v.subject := by
  by_cases hid : v.id = w.id
  · have hw := hs.mem.1
    obtain rfl := work_ext hv hw hid
    cases hs with
    | lease owner token receipt now e db₁ _ _ _ _ hc => exact ⟨_, mem_move ((hc.inv h).2.2 ▸ hv), rfl⟩
    | receipt receipt now owned e db₁ _ _ hc => exact ⟨_, mem_move ((hc.inv h).2.2 ▸ hv), rfl⟩
  · exact ⟨v, hs.mem_of_ne h hv hid, rfl⟩

/-- The settled row is done. -/
theorem Settle.settled {db db' : Db} {w : PaidWorkRow} {via : Via} (h : LedgerInv db) (hs : Settle B w db via db') :
    ∃ v ∈ db'.work.rows, v.id = w.id ∧ v.state = .done := by
  have hw := hs.mem.1
  cases hs with
  | lease owner token receipt now e db₁ _ _ _ _ hc => exact ⟨_, mem_move ((hc.inv h).2.2 ▸ hw), rfl, rfl⟩
  | receipt receipt now owned e db₁ _ _ hc => exact ⟨_, mem_move ((hc.inv h).2.2 ▸ hw), rfl, rfl⟩

theorem Settle.done_mem {db db' : Db} {w : PaidWorkRow} {via : Via} (h : LedgerInv db) (hs : Settle B w db via db')
    {v : PaidWorkRow} (hv : v ∈ db.work.rows) (hd : v.state = .done) : v ∈ db'.work.rows := by
  refine hs.mem_of_ne h hv fun hid => ?_
  obtain rfl := work_ext hv hs.mem.1 hid
  exact hs.mem.2 hd

/-- A call leaves done work as it is. -/
theorem LedgerOp.done_mem {db : Db} (op : LedgerOp) (h : LedgerInv db) {w : PaidWorkRow} (hw : w ∈ db.work.rows)
    (hd : w.state = .done) : w ∈ (op.after B db).work.rows := by
  have := op.preserves (B := B) (P := fun d => LedgerInv d ∧ w ∈ d.work.rows) (fun _ h => h.1.pointsBack)
    (fun _ _ h hwrite => ⟨h.1.write hwrite, hwrite.done_mem h.2 hd⟩)
    (fun _ _ _ _ h hs => ⟨h.1.settle hs, hs.done_mem h.1 h.2 hd⟩) ⟨h, hw⟩
  exact this.2

theorem runOps_done_mem {w : PaidWorkRow} (hd : w.state = .done) : ∀ (ops : List LedgerOp) {db : Db},
    LedgerInv db → w ∈ db.work.rows → w ∈ (runOps B ops db).work.rows
  | [], _, _, hw => hw
  | op :: ops, _, h, hw => runOps_done_mem hd ops (h.after op) (op.done_mem h hw hd)

/-! ## How work becomes done -/

/-- The call presents the exact live claim of the row, or a durable receipt
for the event the row was admitted under. -/
def LedgerOp.Completes (op : LedgerOp) (w : PaidWorkRow) : Prop :=
  match op with
  | .completePaidWork input now =>
    w.id = Js.trim input.workId ∧ w.state = .processing ∧ w.leaseOwner = some (Js.trim input.leaseOwner) ∧
      w.leaseToken = some (Js.trim input.leaseToken) ∧ ∃ leaseUntil, w.leaseUntil = some leaseUntil ∧ now 0 < leaseUntil
  | .completePaidWorkFromDurableReceipt input _ =>
    w.id = Js.trim input.workId ∧ w.tenantId = Js.trim input.tenantId ∧
      w.providerEventId = Js.trim input.admissionProviderEventId
  | _ => False

theorem leaseLive_iff {w : PaidWorkRow} {now : Int} :
    w.leaseLive now = true ↔ ∃ leaseUntil, w.leaseUntil = some leaseUntil ∧ now < leaseUntil := by
  unfold PaidWorkRow.leaseLive
  cases w.leaseUntil with
  | some leaseUntil => simp
  | none => simp

theorem LedgerOp.completes_of_done {db : Db} (op : LedgerOp) (h : LedgerInv db) {v : PaidWorkRow}
    (hv : v ∈ (op.after B db).work.rows) (hd : v.state = .done) :
    v ∈ db.work.rows ∨ ∃ w ∈ db.work.rows, w.id = v.id ∧ w.state ≠ .done ∧ op.Completes w := by
  have swept : ∀ {now : Int} {n : Nat} {db'}, reconcileExpiredPeriodsInTransaction B now db = .ok (n, db') →
      v ∈ db'.work.rows → v ∈ db.work.rows := fun hs hv =>
    (sweep_steps hs : Steps B none _ _).done_of_mem hv hd
  cases hop : op.settles with
  | none => exact .inl ((op.steps hop db).done_of_mem hv hd)
  | some id =>
    cases op with
    | completePaidWork input now =>
      rw [after_completePaidWork] at hv
      rcases completePaidWork_cases input now h.pointsBack with
        hdb | ⟨n, db₁, hs, hdb | ⟨w, hw, hid, hstate, hheld, hlive, hsettle⟩⟩
      · exact .inl (hdb ▸ hv)
      · exact .inl (swept hs (hdb ▸ hv))
      · have h₁ : LedgerInv db₁ := h.steps (sweep_steps hs : Steps B none db db₁)
        rcases hsettle.row h₁ hv with ⟨hv₁, -⟩ | ⟨hvw, -⟩
        · exact .inl (swept hs hv₁)
        · simp only [PaidWorkRow.heldBy, decide_eq_true_eq] at hheld
          exact .inr ⟨w, hw, hvw.symm, by simp [hstate], hid, hstate, hheld.1, hheld.2, leaseLive_iff.1 hlive⟩
    | completePaidWorkFromDurableReceipt input now =>
      rw [after_receipt] at hv
      rcases receipt_cases input now h.pointsBack with
        hdb | ⟨n, db₁, hs, hdb | ⟨w, hw, hid, ht, hevent, hstate, r, hr, hrid, hsettle⟩⟩
      · exact .inl (hdb ▸ hv)
      · exact .inl (swept hs (hdb ▸ hv))
      · have h₁ : LedgerInv db₁ := h.steps (sweep_steps hs : Steps B none db db₁)
        rcases hsettle.row h₁ hv with ⟨hv₁, -⟩ | ⟨hvr, -⟩
        · exact .inl (swept hs hv₁)
        · exact .inr ⟨w, hw, (hvr.trans hrid).symm, hstate, hid, ht, hevent⟩
    | _ => cases hop

/-! ## A lost token -/

/-- The work does not carry the token, neither as its lease nor as the claim it was completed by. -/
def Lost (id : String) (token : Uuid) (db : Db) : Prop :=
  ∀ w ∈ db.work.rows, w.id = id → w.leaseToken ≠ some token.text ∧ w.completedLeaseToken ≠ some token.text

/-- A receipt's marker is no UUID. -/
theorem Uuid.ne_receipt (token : Uuid) (receipt : String) : token.text ≠ "receipt:" ++ receipt := by
  intro h
  have hchars := token.chars
  rw [h, String.toList_append, List.all_append] at hchars
  have : ("receipt:".toList.all isUuidChar) = false := by decide
  rw [this, Bool.false_and] at hchars
  cases hchars

theorem RowStep.lost {db : Db} {w w' : PaidWorkRow} {token : Uuid} (hu : u ≠ some (.lease token))
    (h : RowStep B u db w w') (hw : w.leaseToken ≠ some token.text ∧ w.completedLeaseToken ≠ some token.text) :
    w'.leaseToken ≠ some token.text ∧ w'.completedLeaseToken ≠ some token.text := by
  cases h with
  | keep => exact hw
  | pause reason now _ => exact ⟨by simp [PaidWorkRow.unleased], hw.2⟩
  | move _ hmove =>
    cases hmove with
    | claim owner drawn leaseUntil now _ hdrawn _ =>
      refine ⟨fun heq => hu ?_, hw.2⟩
      obtain rfl : drawn = token := Uuid.ext (Option.some.inj heq)
      exact hdrawn
    | renew _ _ _ => exact hw
    | requestCancel _ _ _ => exact hw
    | evaluate _ _ => exact ⟨by simp [PaidWorkRow.evaluated, PaidWorkRow.unleased], hw.2⟩
    | free _ _ _ _ => exact ⟨by simp [PaidWorkRow.evaluated, PaidWorkRow.unleased], hw.2⟩
    | cancel _ _ _ => exact ⟨by simp [PaidWorkRow.unleased], hw.2⟩

theorem Write.lost {db db' : Db} {id : String} {token : Uuid} (hu : u ≠ some (.lease token)) (h : Write B u db db')
    (hlost : Lost id token db) : Lost id token db' := by
  intro w' hw' hid
  rcases h.row hw' with ⟨w, hw, hstep⟩ | ⟨row, db₁, now, hc, -, rfl⟩
  · exact hstep.lost hu (hlost w hw (hstep.id.symm.trans hid))
  · constructor
    · simp [PaidWorkRow.evaluated, PaidWorkRow.unleased]
    · simp [PaidWorkRow.evaluated, PaidWorkRow.unleased, hc.captured.completed.2]

theorem Settle.lost {db db' : Db} {w : PaidWorkRow} {via : Via} {id : String} {token : Uuid} (h : LedgerInv db)
    (hs : Settle B w db via db') (hlost : Lost id token db) : Lost id token db' := by
  intro v hv hid
  rcases hs.row h hv with ⟨hold, -⟩ | ⟨hvw, -, hnone, hcompleted⟩
  · exact hlost v hold hid
  · refine ⟨by simp [hnone], ?_⟩
    rcases hcompleted with hc | ⟨receipt, hc⟩
    · rw [hc]
      exact (hlost w hs.mem.1 (hvw.symm.trans hid)).1
    · rw [hc]
      exact fun heq => token.ne_receipt receipt (Option.some.inj heq).symm

theorem LedgerOp.lost {db : Db} (op : LedgerOp) {id : String} {token : Uuid} (hu : op.draw ≠ some (.lease token))
    (h : LedgerInv db) (hlost : Lost id token db) : Lost id token (op.after B db) := by
  have := op.preserves (B := B) (P := fun d => LedgerInv d ∧ Lost id token d) (fun _ h => h.1.pointsBack)
    (fun _ _ h hw => ⟨h.1.write hw, hw.lost hu h.2⟩)
    (fun _ _ _ _ h hs => ⟨h.1.settle hs, hs.lost h.1 h.2⟩) ⟨h, hlost⟩
  exact this.2

theorem runOps_lost {id : String} {token : Uuid} : ∀ (ops : List LedgerOp) {db : Db},
    (∀ op ∈ ops, op.draw ≠ some (.lease token)) → LedgerInv db → Lost id token db → Lost id token (runOps B ops db)
  | [], _, _, _, hlost => hlost
  | op :: ops, _, hu, h, hlost =>
    runOps_lost ops (fun o ho => hu o (List.mem_cons_of_mem _ ho)) (h.after op)
      (op.lost (hu op List.mem_cons_self) h hlost)

/-! ## What a stale call does -/

/-- The call addresses the work with the token. -/
def LedgerOp.presents (op : LedgerOp) (id token : String) : Prop :=
  match op with
  | .renewPaidWorkLease input _ _ => Js.trim input.workId = id ∧ Js.trim input.leaseToken = token
  | .releasePaidWorkForRetry input _ => Js.trim input.workId = id ∧ Js.trim input.leaseToken = token
  | .completePaidWork input _ => Js.trim input.workId = id ∧ Js.trim input.leaseToken = token
  | .cancelPaidWork input _ => Js.trim input.workId = id ∧ input.leaseToken.map Js.trim = some token
  | _ => False

def LedgerOp.isCancel : LedgerOp → Bool
  | .cancelPaidWork _ _ => true
  | _ => false

/-- Captured, ready or paused: nobody holds the work. -/
def PaidWorkRow.isWaiting (w : PaidWorkRow) : Bool := w.state = .captured ∨ w.state = .ready ∨ w.state = .paused

theorem renew_stale {db : Db} {input : LeaseInput} {leaseMs : Int} {now : Nat → Int} {token : Uuid}
    (ht : Js.trim input.leaseToken = token.text) (hlost : Lost (Js.trim input.workId) token db) :
    (renewPaidWorkLease input leaseMs now db).2 = db := by
  refine transaction_eq_self fun v db' h => ?_
  simp only [bind_ok, required_ok] at h
  obtain ⟨wid, ⟨rfl, -⟩, t, -, o, -, k, ⟨rfl, -⟩, lease, -, h⟩ := h
  rw [Table.count_eq_zero] at h
  · simp at h
  · intro w hw
    simp only [decide_eq_false_iff_not]
    rintro ⟨hid, -, -, hheld, -⟩
    simp only [PaidWorkRow.heldBy, decide_eq_true_eq] at hheld
    exact (hlost w hw hid).1 (ht ▸ hheld.2)

theorem release_stale {db : Db} {input : LeaseInput} {now : Nat → Int} {token : Uuid}
    (ht : Js.trim input.leaseToken = token.text) (hlost : Lost (Js.trim input.workId) token db) :
    (releasePaidWorkForRetry B input now db).2 = db := by
  refine transaction_eq_self fun v db' h => ?_
  simp only [bind_ok, required_ok] at h
  obtain ⟨wid, ⟨rfl, -⟩, t, -, o, -, k, ⟨rfl, -⟩, h⟩ := h
  split at h
  · cases h
  next w hw =>
  obtain ⟨hmem, hid⟩ := workById_mem hw
  split at h
  · cases h
  split at h
  · simp only [pure_ok, Prod.mk.injEq] at h
    exact h.2.symm
  split at h
  · cases h
  next hheld =>
  simp only [not_or, ne_eq, not_not] at hheld
  exact absurd (ht ▸ hheld.2) (hlost w hmem hid).1

theorem complete_stale {db : Db} {input : CompleteInput} {now : Nat → Int} {token : Uuid}
    (ht : Js.trim input.leaseToken = token.text) (hlost : Lost (Js.trim input.workId) token db) :
    (completePaidWork B input now db).2 = db := by
  simp only [completePaidWork, throwing_snd]
  refine transaction_eq_self fun v db' h => ?_
  simp only [bind_ok, required_ok] at h
  obtain ⟨wid, ⟨rfl, -⟩, t, -, h⟩ := h
  split at h
  · cases h
  next w hw =>
  obtain ⟨hmem, hid⟩ := workById_mem hw
  obtain ⟨hlease, hcompleted⟩ := hlost w hmem hid
  split at h
  · cases h
  simp only [bind_ok, required_ok] at h
  obtain ⟨event, -, h⟩ := h
  split at h
  · cases h
  simp only [bind_ok, required_ok] at h
  obtain ⟨owner, -, k, ⟨rfl, -⟩, at_, -, usage, -, h⟩ := h
  rw [ht] at h
  split at h
  · simp only [replayCompletion] at h
    split at h
    · cases h
    rw [if_pos (.inr hcompleted)] at h
    cases h
  · simp only [settleLease] at h
    split at h
    · cases h
    rw [if_pos (.inr hlease)] at h
    cases h

theorem cancel_stale {db : Db} {input : CancelInput} {now : Nat → Int} {token : Uuid}
    (ht : input.leaseToken.map Js.trim = some token.text) (hlost : Lost (Js.trim input.workId) token db)
    (hbusy : ∀ w ∈ db.work.rows, w.id = Js.trim input.workId → w.isWaiting = false) :
    (cancelPaidWork input now db).2 = db := by
  refine transaction_eq_self fun v db' h => ?_
  simp only [bind_ok, required_ok] at h
  obtain ⟨wid, ⟨rfl, -⟩, t, -, h⟩ := h
  split at h
  · cases h
  next w hw =>
  obtain ⟨hmem, hid⟩ := workById_mem hw
  obtain ⟨hlease, -⟩ := hlost w hmem hid
  split at h
  · cases h
  split at h
  · simp only [pure_ok, Prod.mk.injEq] at h
    exact h.2.symm
  next hterm =>
  have hstate : w.state = .processing := by
    have := hbusy w hmem hid
    cases hs : w.state <;> simp [hs, PaidWorkRow.isWaiting] at this hterm ⊢
  cases htoken : input.leaseToken with
  | none => simp [htoken] at ht
  | some given =>
    simp only [htoken, Option.map_some, Option.some.injEq] at ht
    have hne : given ≠ "" := by
      rintro rfl
      have := token.length_eq
      rw [← ht] at this
      simp [Js.trim, Js.trimChars] at this
    split at h
    · next hf => simp [htoken, falsy, hne] at hf
    split at h
    · cases h
    next hdiff =>
    simp only [hstate, htoken, differsFrom, ht, true_and, not_or, decide_eq_true_eq, not_not] at hdiff
    exact absurd hdiff.2 hlease

/-- A call with a lost token changes nothing, unless it cancels work nobody holds. -/
theorem LedgerOp.stale {db : Db} (op : LedgerOp) {id : String} {token : Uuid} (hop : op.presents id token.text)
    (hlost : Lost id token db)
    (hbusy : op.isCancel = true → ∀ w ∈ db.work.rows, w.id = id → w.isWaiting = false) : op.after B db = db := by
  cases op
  all_goals simp only [LedgerOp.presents, LedgerOp.isCancel, forall_const] at hop hbusy
  all_goals simp only [LedgerOp.after, LedgerOp.run, Prod.map_snd, id_eq]
  case renewPaidWorkLease input leaseMs now =>
    obtain ⟨rfl, ht⟩ := hop
    exact renew_stale ht hlost
  case releasePaidWorkForRetry input now =>
    obtain ⟨rfl, ht⟩ := hop
    exact release_stale ht hlost
  case completePaidWork input now =>
    obtain ⟨rfl, ht⟩ := hop
    exact complete_stale ht hlost
  case cancelPaidWork input now =>
    obtain ⟨rfl, ht⟩ := hop
    exact cancel_stale ht hlost hbusy

theorem cancelPaidWork_entries (input : CancelInput) (now : Nat → Int) (db : Db) :
    (cancelPaidWork input now db).2.entries = db.entries := by
  generalize hrun : cancelPaidWork input now db = out
  obtain ⟨e, -, rfl⟩ | ⟨v, db', h, rfl⟩ := transaction_cases hrun
  · rfl
  simp only [bind_ok] at h
  obtain ⟨wid, -, t, -, h⟩ := h
  split at h
  · cases h
  split at h
  · cases h
  split at h
  · simp only [pure_ok, Prod.mk.injEq] at h
    rw [h.2]
  split at h
  · simp only [bind_ok, pure_ok, Prod.mk.injEq] at h
    obtain ⟨r, -, -, rfl⟩ := h
    rfl
  split at h
  · cases h
  simp only [bind_ok, pure_ok, Prod.mk.injEq] at h
  obtain ⟨r, -, -, rfl⟩ := h
  rfl

/-! ## One charge -/

/-- What a completion can leave: the database as it was, a sweep, or a sweep and a settlement of the addressed work. -/
theorem LedgerOp.settles_cases {db : Db} (op : LedgerOp) (h : LedgerInv db) {id : String}
    (hop : op.settles = some id) :
    op.after B db = db ∨ ∃ now n db₁, reconcileExpiredPeriodsInTransaction B now db = .ok (n, db₁) ∧
      (op.after B db = db₁ ∨ ∃ via, ∃ w ∈ db₁.work.rows, w.id = id ∧ Settle B w db₁ via (op.after B db)) := by
  cases op with
  | completePaidWork input now =>
    obtain rfl := Option.some.inj hop
    rw [after_completePaidWork]
    refine (completePaidWork_cases input now h.pointsBack).imp_right fun ⟨n, db₁, hs, hcases⟩ =>
      ⟨now 0, n, db₁, hs, hcases.imp_right fun ⟨w, _, hid, _, _, _, hsettle⟩ => ?_⟩
    exact ⟨.lease, w, hsettle.mem.1, hid, hsettle⟩
  | completePaidWorkFromDurableReceipt input now =>
    obtain rfl := Option.some.inj hop
    rw [after_receipt]
    refine (receipt_cases input now h.pointsBack).imp_right fun ⟨n, db₁, hs, hcases⟩ =>
      ⟨now 0, n, db₁, hs, hcases.imp_right fun ⟨w, _, hid, _, _, _, v, hv, hvw, hsettle⟩ => ?_⟩
    exact ⟨.receipt, v, hv, hvw.trans hid, hsettle⟩
  | _ => cases hop

/-- The usage entries a call books on behalf of a work: those its completions append. -/
def LedgerOp.chargesFor (B : Backend) (id : String) (op : LedgerOp) (db : Db) : Nat :=
  if op.settles = some id then (newEntries db (op.after B db)).countP (·.kind = .usage) else 0

/-- The usage entries a run books on behalf of a work. -/
def chargesFor (B : Backend) (id : String) : List LedgerOp → Db → Nat
  | [], _ => 0
  | op :: ops, db => op.chargesFor B id db + chargesFor B id ops (op.after B db)

theorem countP_sweep {now : Int} {n : Nat} {db db' : Db}
    (h : reconcileExpiredPeriodsInTransaction B now db = .ok (n, db')) :
    (newEntries db db').countP (·.kind = .usage) = 0 := by
  rw [List.countP_eq_zero]
  intro e he
  simp [((sweep_appends h).rows.2 e he).kind]

theorem Charge.count_le {owned : Int} {w : PaidWorkRow} {db db' : Db} {e : EntryRow} (h : Charge B owned w db e db') :
    (newEntries db db').countP (·.kind = .usage) ≤ 1 := by
  cases h with
  | replay _ _ =>
    rw [newEntries_of_eq rfl]
    exact Nat.zero_le _
  | book input _ _ _ _ _ _ _ hins =>
    rw [newEntries_insertEntry hins]
    exact List.countP_le_length

theorem Settle.count_le {db db' : Db} {w : PaidWorkRow} {via : Via} (h : Settle B w db via db') :
    (newEntries db db').countP (·.kind = .usage) ≤ 1 := by
  cases h with
  | lease _ _ _ _ _ _ _ _ _ _ hc => exact hc.count_le
  | receipt _ _ _ _ _ _ _ hc => exact hc.count_le

/-- A call books at most one usage on behalf of a work, and if it does the
work was not done and is now. -/
theorem LedgerOp.chargesFor_cases {db : Db} (op : LedgerOp) (h : LedgerInv db) (id : String) :
    op.chargesFor B id db = 0 ∨ op.chargesFor B id db = 1 ∧
      (∀ w ∈ db.work.rows, w.id = id → w.state ≠ .done) ∧
      ∃ w ∈ (op.after B db).work.rows, w.id = id ∧ w.state = .done := by
  unfold LedgerOp.chargesFor
  split
  · next hop =>
    rcases op.settles_cases h hop with hdb | ⟨now, n, db₁, hs, hdb | ⟨via, w, hw, hid, hsettle⟩⟩
    · left
      rw [hdb, newEntries_of_eq rfl]
      rfl
    · left
      rw [hdb]
      exact countP_sweep hs
    · have hsteps : Steps B none db db₁ := sweep_steps hs
      have h₁ := h.steps hsteps
      have happ : Appends (fun _ => True) db db₁ := (sweep_appends hs).mono fun _ _ => trivial
      have hcount : (newEntries db (op.after B db)).countP (·.kind = .usage) ≤ 1 := by
        rw [newEntries_trans happ hsettle.appends, List.countP_append, countP_sweep hs, Nat.zero_add]
        exact hsettle.count_le
      have hbefore : ∀ v ∈ db.work.rows, v.id = id → v.state ≠ .done := by
        intro v hv hvid hd
        -- A row done before the sweep is still there, so it would be the settled one.
        have hv₁ : v ∈ db₁.work.rows := sweep_mem hs hv (by simp [PaidWorkRow.isOpen, hd])
        obtain rfl := work_ext hv₁ hw (hvid.trans hid.symm)
        exact hsettle.mem.2 hd
      obtain ⟨v, hv, hvw, hd⟩ := hsettle.settled h₁
      have hafter : ∃ v ∈ (op.after B db).work.rows, v.id = id ∧ v.state = .done := ⟨v, hv, hvw.trans hid, hd⟩
      rcases Nat.le_one_iff_eq_zero_or_eq_one.1 hcount with hzero | hone
      · exact .inl hzero
      · exact .inr ⟨hone, hbefore, hafter⟩
  · exact .inl rfl

theorem chargesFor_done {id : String} {w : PaidWorkRow} (hid : w.id = id) (hd : w.state = .done) :
    ∀ (ops : List LedgerOp) {db : Db}, LedgerInv db → w ∈ db.work.rows → chargesFor B id ops db = 0
  | [], _, _, _ => rfl
  | op :: ops, db, h, hw => by
    have hrest : chargesFor B id ops (op.after B db) = 0 :=
      chargesFor_done hid hd ops (h.after op) (op.done_mem h hw hd)
    rcases op.chargesFor_cases (B := B) h id with hzero | ⟨-, hnot, -⟩
    · simp only [chargesFor, hzero, hrest]
    · exact absurd hd (hnot w hw hid)

theorem chargesFor_le_one (id : String) : ∀ (ops : List LedgerOp) {db : Db}, LedgerInv db → chargesFor B id ops db ≤ 1
  | [], _, _ => Nat.zero_le _
  | op :: ops, db, h => by
    have hrest := chargesFor_le_one id ops (h.after op (B := B))
    simp only [chargesFor]
    rcases op.chargesFor_cases (B := B) h id with hzero | ⟨hone, -, w, hw, hid, hd⟩
    · omega
    · have : chargesFor B id ops (op.after B db) = 0 := chargesFor_done hid hd ops (h.after op) hw
      omega

/-- **Leases fence the work.** After any calls `before`, and any calls `after`
them: done work got there by its exact live claim or its receipt; a call with
a token the row has lost changes nothing, unless it cancels work nobody holds,
which books nothing; done work stays as it is; and the completions of a work
book at most one usage entry. -/
theorem lease_fencing (sha256 : String → String) (basisPoints : Int → Int → Int) (before after : List LedgerOp)
    (op : LedgerOp) :
    let B := hotPath sha256 basisPoints
    let db := runOps B before Db.empty
    let db' := runOps B after db
    (∀ v ∈ (op.after B db).work.rows, v.state = .done →
      v ∈ db.work.rows ∨ ∃ w ∈ db.work.rows, w.id = v.id ∧ w.state ≠ .done ∧ op.Completes w) ∧
    (((before ++ after).filterMap LedgerOp.uuid).Nodup → ∀ token ∈ before.filterMap LedgerOp.uuid,
      ∀ w ∈ db.work.rows, w.leaseToken ≠ some token.text → w.completedLeaseToken ≠ some token.text →
        op.presents w.id token.text →
          ((op.isCancel = true → ∀ v ∈ db'.work.rows, v.id = w.id → v.isWaiting = false) → op.after B db' = db') ∧
          (op.after B db').entries = db'.entries) ∧
    (∀ w ∈ db.work.rows, w.state = .done → w ∈ db'.work.rows) ∧
    ∀ id, chargesFor B id before Db.empty ≤ 1 := by
  intro B db db'
  have h : LedgerInv db := Reachable.inv ⟨before, rfl⟩
  refine ⟨fun v hv hd => op.completes_of_done h hv hd, ?_,
    fun w hw hd => runOps_done_mem hd after h hw, fun id => chargesFor_le_one id before .empty⟩
  intro hfresh token htoken w hw hlease hcompleted hop
  -- The draws being distinct, no later call draws the token.
  have hlater : ∀ o ∈ after, o.draw ≠ some (.lease token) := by
    intro o ho hdraw
    have heq := LedgerOp.uuid_of_draw hdraw
    rw [List.filterMap_append, List.nodup_append] at hfresh
    exact hfresh.2.2 token htoken token (List.mem_filterMap.2 ⟨o, ho, heq⟩) rfl
  have hlost : Lost w.id token db := by
    intro v hv hid
    obtain rfl := work_ext hv hw hid
    exact ⟨hlease, hcompleted⟩
  have hlost' : Lost w.id token db' := runOps_lost after hlater h hlost
  refine ⟨fun hbusy => op.stale hop hlost' hbusy, ?_⟩
  by_cases hcancel : op.isCancel = true
  · cases op with
    | cancelPaidWork input now =>
      simp only [LedgerOp.after, LedgerOp.run, Prod.map_snd, id_eq]
      exact cancelPaidWork_entries input now db'
    | _ => cases hcancel
  · rw [op.stale hop hlost' fun hc => absurd hc hcancel]

/-! ## A stale cancel -/

namespace Sample

/-- A backend to run: the digest is the payload itself. -/
def backend : Backend := hotPath id fun _ _ => 0

def workId : Uuid := ⟨"00000000-0000-4000-8000-000000000001", by decide, by decide⟩

def token : Uuid := ⟨"00000000-0000-4000-8000-000000000002", by decide, by decide⟩

/-- Ten units for the period from 0 to 1000. -/
def grant : LedgerOp :=
  .grantAllowance {
    tenantId := "tenant", periodId := "period", startsAt := 0, endsAt := 1000, amountUnits := 10, source := "operator",
    idempotencyKey := "grant", tariffVersion := "v1", auditReason := "granted", occurredAt := none } fun _ => 10

/-- One piece of work, admitted at 20. -/
def enqueue (estimatedUnits capturedAt : Int) : LedgerOp :=
  .admitPaidWork {
    tenantId := "tenant", periodId := "period", idempotencyKey := "work", providerEventId := "event",
    operation := "transcribe", custodyRef := "inbox", estimatedUnits := estimatedUnits,
    capturedAt := some capturedAt } (fun _ => 20) workId

/-- The work is leased until 5030. -/
def claim : LedgerOp := .claimPaidWork workId.text "tenant" "worker" 5000 30 token

def release : LedgerOp := .releasePaidWorkForRetry ⟨workId.text, "tenant", "worker", token.text⟩ fun _ => 40

def cancel : LedgerOp := .cancelPaidWork ⟨workId.text, "tenant", some "worker", some token.text⟩ fun _ => 50

end Sample

/-- A worker that gave its lease back still cancels the work with it, as anyone could. -/
theorem stale_cancel_cancels :
    let db := runOps Sample.backend [Sample.grant, Sample.enqueue 5 20, Sample.claim, Sample.release] Db.empty
    let before := runOps Sample.backend [Sample.grant, Sample.enqueue 5 20, Sample.claim] Db.empty
    (before.workById Sample.workId.text).map (·.leaseToken) = some (some Sample.token.text) ∧
    (db.workById Sample.workId.text).map (fun w => (w.state, w.leaseToken)) = some (.ready, none) ∧
    Sample.cancel.presents Sample.workId.text Sample.token.text ∧
    ((Sample.cancel.after Sample.backend db).workById Sample.workId.text).map (·.state) = some .cancelled := by
  refine ⟨by decide +kernel, by decide +kernel, ⟨?_, ?_⟩, by decide +kernel⟩
  · decide +kernel
  · decide +kernel

end Zenod.Phylax
