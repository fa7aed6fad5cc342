/-
The invariant of the ledger: what every write and every settlement keeps, so
what holds of every database a run reaches.

The entries stand in the order of their sequence, none of them beyond the
counter. The totals rows are the sums of the entries, whoever reads them. A
row of paid work is consistent on its own (`RowInv`): it reserves its estimate
exactly while it is ready or processing, carries a lease exactly while it is
processing, and points at an entry exactly when it is done. A suspended tenant
has no captured or ready work.
-/
import Zenod.Phylax.Steps

namespace Zenod.Phylax

variable {B : Backend} {u : Option Draw}

/-! ## Totals -/

/-- The totals rows hold the sums of the entries. -/
def TotalsSound (db : Db) : Prop := ∀ t p, readTotals db t p = sumTotals db t p

theorem identifies_totals (t p : String) :
    Table.Identifies fun r : TotalsRow => decide (r.tenantId = t ∧ r.periodId = p) := by
  intro a b ha hb
  simp only [decide_eq_true_eq] at ha hb
  simp [Keyed.clash, ha, hb]

@[simp] theorem PeriodTotals.zero_add (d : PeriodTotals) : PeriodTotals.zero.add d = d := by
  simp [PeriodTotals.zero, PeriodTotals.add]

/-- The totals row of a period after the trigger ran. -/
theorem find?_bumpTotals (totals : Table TotalsRow) (e : EntryRow) (t p : String) :
    (bumpTotals totals e).rows.find? (fun r => r.tenantId = t ∧ r.periodId = p) =
      if e.isIn t p then
        some (((totals.rows.find? fun r => r.tenantId = t ∧ r.periodId = p).map (·.bump e.totals)).getD
          ⟨t, p, e.totals.balance, e.totals.allocated, e.totals.used⟩)
      else totals.rows.find? fun r => r.tenantId = t ∧ r.periodId = p := by
  unfold bumpTotals
  cases hq : e.periodId with
  | none => simp [EntryRow.isIn, hq]
  | some q =>
    have hin : e.isIn t p = decide (e.tenantId = t ∧ q = p) := by simp [EntryRow.isIn, hq]
    rw [hin]
    simp only
    split
    · next totals' hins =>
      obtain ⟨hnew, hrows⟩ := Table.insert?_eq_some.1 hins
      rw [hrows, List.find?_append]
      by_cases hk : e.tenantId = t ∧ q = p
      · obtain ⟨rfl, rfl⟩ := hk
        have hnone : totals.rows.find? (fun r => decide (r.tenantId = e.tenantId ∧ r.periodId = q)) = none := by
          rw [List.find?_eq_none]
          intro r hr
          have := hnew r hr
          simpa [Keyed.clash] using this
        rw [hnone]
        simp
      · simp [hk]
    · next hins =>
      have hkey : ∀ r : TotalsRow, decide ((r.bump e.totals).tenantId = t ∧ (r.bump e.totals).periodId = p) =
          decide (r.tenantId = t ∧ r.periodId = p) := fun _ => rfl
      rw [Table.find?_update _ hkey]
      by_cases hk : e.tenantId = t ∧ q = p
      · obtain ⟨rfl, rfl⟩ := hk
        cases hfind : totals.rows.find? fun r => decide (r.tenantId = e.tenantId ∧ r.periodId = q) with
        | some r =>
          have hr := List.find?_some hfind
          simp only [decide_eq_true_eq] at hr
          simp [hr]
        | none =>
          -- No row has the key, so the insert would have gone through.
          rw [List.find?_eq_none] at hfind
          have hnew : ∀ r ∈ totals.rows,
              Keyed.clash r ⟨e.tenantId, q, e.totals.balance, e.totals.allocated, e.totals.used⟩ = false :=
            fun r hr => by simpa [Keyed.clash] using hfind r hr
          obtain ⟨totals', hins', -⟩ := Table.insert?_isSome hnew
          rw [hins'] at hins
          cases hins
      · rw [if_neg (by simpa using hk)]
        cases hfind : totals.rows.find? fun r => decide (r.tenantId = t ∧ r.periodId = p) with
        | some r =>
          have hr := List.find?_some hfind
          simp only [decide_eq_true_eq] at hr
          have : ¬(r.tenantId = e.tenantId ∧ r.periodId = q) := fun h => hk ⟨h.1.symm.trans hr.1, h.2.symm.trans hr.2⟩
          simp [this]
        | none => rfl

/-- What an entry does to the totals of each period, as the rows have them. -/
theorem readTotals_insertEntry {db db' : Db} {input : EntryInput} {row : EntryRow}
    (h : insertEntry db input = .ok (row, db')) (t p : String) :
    readTotals db' t p = if row.isIn t p then (readTotals db t p).add row.totals else readTotals db t p := by
  obtain ⟨-, entries, -, rfl⟩ := insertEntry_ok.1 h
  unfold readTotals
  rw [find?_bumpTotals]
  by_cases hin : row.isIn t p = true
  · rw [if_pos hin, if_pos hin]
    cases db.totals.rows.find? fun r => decide (r.tenantId = t ∧ r.periodId = p) with
    | some r => rfl
    | none => simp
  · rw [if_neg hin, if_neg hin]

/-- What an entry does to the totals of each period, summed. -/
theorem sumTotals_insertEntry {db db' : Db} {input : EntryInput} {row : EntryRow}
    (h : insertEntry db input = .ok (row, db')) (t p : String) :
    sumTotals db' t p = if row.isIn t p then (sumTotals db t p).add row.totals else sumTotals db t p := by
  obtain ⟨-, entries, hins, rfl⟩ := insertEntry_ok.1 h
  simp only [sumTotals, Table.sumBy_insert? hins]
  split
  · rfl
  · simp

theorem TotalsSound.insertEntry {db db' : Db} {input : EntryInput} {row : EntryRow} (hs : TotalsSound db)
    (h : insertEntry db input = .ok (row, db')) : TotalsSound db' := by
  intro t p
  rw [readTotals_insertEntry h, sumTotals_insertEntry h, hs t p]

/-! ## Sequences -/

/-- The entries stand in the order of their sequence. -/
structure Ordered (db : Db) : Prop where
  sorted : db.entries.rows.Pairwise fun a b => a.sequence < b.sequence
  le_last : ∀ e ∈ db.entries.rows, e.sequence ≤ db.lastSequence

theorem Ordered.insertEntry {db db' : Db} {input : EntryInput} {row : EntryRow} (ho : Ordered db)
    (h : insertEntry db input = .ok (row, db')) : Ordered db' := by
  obtain ⟨rfl, entries, hins, rfl⟩ := insertEntry_ok.1 h
  have hrows := (Table.insert?_eq_some.1 hins).2
  constructor
  · simp only [hrows]
    refine List.pairwise_append.2 ⟨ho.sorted, List.pairwise_singleton _ _, fun a ha b hb => ?_⟩
    obtain rfl := List.mem_singleton.1 hb
    exact Nat.lt_succ_of_le (ho.le_last a ha)
  · intro e he
    simp only [hrows, List.mem_append, List.mem_singleton] at he
    rcases he with he | rfl
    · exact Nat.le_succ_of_le (ho.le_last e he)
    · exact le_refl _

/-! ## Rows of paid work -/

/-- A row of paid work is consistent. -/
structure RowInv (db : Db) (w : PaidWorkRow) : Prop where
  id : ∃ drawn : Uuid, w.id = drawn.text
  estimated : 0 ≤ w.estimatedUnits ∧ Js.isSafeInteger w.estimatedUnits = true
  reserved : w.reservedUnits = if w.holdsUnits then w.estimatedUnits else 0
  createdAt : ValidTime w.createdAt
  tenantId : Normalized 512 w.tenantId
  periodId : Normalized 512 w.periodId
  providerEventId : Normalized 512 w.providerEventId
  operation : Normalized 512 w.operation
  leased : w.state = .processing → ∃ owner leaseUntil, ∃ token : Uuid, w.leaseOwner = some owner ∧
    w.leaseToken = some token.text ∧ w.leaseUntil = some leaseUntil ∧ Normalized 512 owner
  unleased : w.state ≠ .processing → w.leaseOwner = none ∧ w.leaseToken = none ∧ w.leaseUntil = none
  unsettled : w.state ≠ .done → w.completedLeaseOwner = none ∧ w.completedLeaseToken = none ∧
    w.usageEntrySequence = none ∧ w.providerReceiptId = none
  settled : w.state = .done → ∃ n, w.usageEntrySequence = some n ∧ n ≤ db.lastSequence
  receipt : w.state = .done → w.providerReceiptId.isSome = true
  holds : w.holdsUnits = true → ∃ p, db.period w.tenantId w.periodId = some p
  ready : w.state = .ready → ∃ p, db.period w.tenantId w.periodId = some p ∧ p.startsAt ≤ w.updatedAt ∧
    w.updatedAt < p.endsAt

/-- The periods of one database are periods of the other. -/
def PeriodsKept (db db' : Db) : Prop := ∀ t p x, db.period t p = some x → db'.period t p = some x

theorem RowInv.mono {db db' : Db} {w : PaidWorkRow} (h : RowInv db w) (hp : PeriodsKept db db')
    (hs : db.lastSequence ≤ db'.lastSequence) : RowInv db' w where
  id := h.id
  estimated := h.estimated
  reserved := h.reserved
  createdAt := h.createdAt
  tenantId := h.tenantId
  periodId := h.periodId
  providerEventId := h.providerEventId
  operation := h.operation
  leased := h.leased
  unleased := h.unleased
  unsettled := h.unsettled
  settled hd := by
    obtain ⟨n, hn, hle⟩ := h.settled hd
    exact ⟨n, hn, hle.trans hs⟩
  receipt := h.receipt
  holds hh := by
    obtain ⟨p, h⟩ := h.holds hh
    exact ⟨p, hp _ _ _ h⟩
  ready hr := by
    obtain ⟨p, h, hb⟩ := h.ready hr
    exact ⟨p, hp _ _ _ h, hb⟩

theorem periodsKept_insert {db : Db} {row : PeriodRow} {periods : Table PeriodRow}
    (h : db.periods.insert? row = some periods) : PeriodsKept db { db with periods := periods } := by
  intro t p x hx
  simp only [Db.period] at hx ⊢
  rw [(Table.insert?_eq_some.1 h).2, List.find?_append, hx]
  rfl

/-- A row that is not done may be put to rest: paused, captured or cancelled, with nothing reserved and no lease. -/
theorem RowInv.rest {db : Db} {w : PaidWorkRow} {state : PaidWorkState} {reason : Option PauseReason} {now : Int}
    {requested : Option Int} (h : RowInv db w) (hw : w.state ≠ .done)
    (hs : state = .paused ∨ state = .captured ∨ state = .cancelled) :
    RowInv db { w.unleased state reason now with cancellationRequestedAt := requested } where
  id := h.id
  estimated := h.estimated
  reserved := by rcases hs with rfl | rfl | rfl <;> simp [PaidWorkRow.unleased, PaidWorkRow.holdsUnits]
  createdAt := h.createdAt
  tenantId := h.tenantId
  periodId := h.periodId
  providerEventId := h.providerEventId
  operation := h.operation
  leased hp := by rcases hs with rfl | rfl | rfl <;> cases hp
  unleased _ := ⟨rfl, rfl, rfl⟩
  unsettled _ := h.unsettled hw
  settled hd := by rcases hs with rfl | rfl | rfl <;> cases hd
  receipt hd := by rcases hs with rfl | rfl | rfl <;> cases hd
  holds hh := by rcases hs with rfl | rfl | rfl <;> simp [PaidWorkRow.unleased, PaidWorkRow.holdsUnits] at hh
  ready hr := by rcases hs with rfl | rfl | rfl <;> cases hr

/-- `evaluateWork` finds a row ready for a period that is running and has room for it. -/
theorem evaluation_ready {db : Db} {w : PaidWorkRow} {now : Int} (h : (evaluation B db w now).1 = .ready) :
    db.isSuspended w.tenantId = false ∧ ∃ p, db.period w.tenantId w.periodId = some p ∧ p.startsAt ≤ now ∧
      now < p.endsAt ∧ w.estimatedUnits ≤ availableInPeriod B db w.tenantId w.periodId := by
  unfold evaluation at h
  split at h
  · cases h
  next hs =>
  refine ⟨by simpa using hs, ?_⟩
  split at h
  · cases h
  next p hp =>
  split at h
  · cases h
  next hb =>
  split at h
  · cases h
  next ha =>
  exact ⟨p, hp, by omega, by omega, by omega⟩

theorem evaluation_cases (B : Backend) (db : Db) (w : PaidWorkRow) (now : Int) :
    (evaluation B db w now).1 = .ready ∨ (evaluation B db w now).1 = .paused := by
  unfold evaluation
  split
  · exact .inr rfl
  split
  · exact .inr rfl
  split
  · exact .inr rfl
  split
  · exact .inr rfl
  · exact .inl rfl

/-- A row that is not done may be evaluated. -/
theorem RowInv.evaluated {db db₁ : Db} {v w : PaidWorkRow} {now : Int} (h : RowInv db w) (hw : w.state ≠ .done)
    (hdb : PeriodsKept db₁ db) (ht : v.tenantId = w.tenantId) (hp : v.periodId = w.periodId) :
    RowInv db (w.evaluated (evaluation B db₁ v now) now) := by
  have hready := @evaluation_ready B db₁ v now
  have hcases := evaluation_cases B db₁ v now
  rw [ht, hp] at hready
  generalize evaluation B db₁ v now = verdict at hready hcases ⊢
  obtain ⟨state, reason⟩ := verdict
  simp only at hready hcases
  refine {
    id := h.id
    estimated := h.estimated
    reserved := ?_
    createdAt := h.createdAt
    tenantId := h.tenantId
    periodId := h.periodId
    providerEventId := h.providerEventId
    operation := h.operation
    leased := fun hs => ?_
    unleased := fun _ => ⟨rfl, rfl, rfl⟩
    unsettled := fun _ => h.unsettled hw
    settled := fun hs => ?_
    receipt := fun hs => ?_
    holds := fun hs => ?_
    ready := fun hs => ?_ }
  · rcases hcases with rfl | rfl <;> simp [PaidWorkRow.evaluated, PaidWorkRow.unleased, PaidWorkRow.holdsUnits]
  · rcases hcases with rfl | rfl <;> cases hs
  · rcases hcases with rfl | rfl <;> cases hs
  · rcases hcases with rfl | rfl <;> cases hs
  · rcases hcases with rfl | rfl
    · obtain ⟨-, p, hfind, -⟩ := hready rfl
      exact ⟨p, hdb _ _ _ hfind⟩
    · simp [PaidWorkRow.evaluated, PaidWorkRow.unleased, PaidWorkRow.holdsUnits] at hs
  · obtain ⟨-, p, hfind, hstart, hend, -⟩ := hready hs
    exact ⟨p, hdb _ _ _ hfind, hstart, hend⟩

theorem RowInv.claim {db : Db} {w : PaidWorkRow} {owner : String} {token : Uuid} {leaseUntil now : Int}
    (h : RowInv db w) (hw : w.state = .ready) (ho : Normalized 512 owner) :
    RowInv db (w.leased owner token.text leaseUntil now) where
  id := h.id
  estimated := h.estimated
  reserved := by
    have := h.reserved
    simpa [PaidWorkRow.holdsUnits, PaidWorkRow.leased, hw] using this
  createdAt := h.createdAt
  tenantId := h.tenantId
  periodId := h.periodId
  providerEventId := h.providerEventId
  operation := h.operation
  leased _ := ⟨owner, leaseUntil, token, rfl, rfl, rfl, ho⟩
  unleased hs := absurd rfl hs
  unsettled _ := h.unsettled (by simp [hw])
  settled hs := by cases hs
  receipt hs := by cases hs
  holds _ := h.holds (by simp [PaidWorkRow.holdsUnits, hw])
  ready hs := by cases hs

theorem RowInv.renew {db : Db} {w : PaidWorkRow} {leaseUntil now : Int} (h : RowInv db w)
    (hw : w.state = .processing) : RowInv db { w with leaseUntil := some leaseUntil, updatedAt := now } :=
  { h with
    leased := fun hs => by
      obtain ⟨owner, -, token, ho, ht, -, hn⟩ := h.leased hs
      exact ⟨owner, leaseUntil, token, ho, ht, rfl, hn⟩
    unleased := fun hs => absurd hw hs
    ready := fun hs => by simp [hw] at hs }

theorem RowInv.requestCancel {db : Db} {w : PaidWorkRow} {requestedAt now : Int} (h : RowInv db w)
    (hw : w.state = .processing) :
    RowInv db { w with cancellationRequestedAt := some requestedAt, updatedAt := now } :=
  { h with ready := fun hs => by simp [hw] at hs }

theorem RowInv.complete {db : Db} {w : PaidWorkRow} {owner token receipt : String} {sequence : Nat} {now : Int}
    (h : RowInv db w) (hseq : sequence ≤ db.lastSequence) :
    RowInv db (w.completed owner token sequence receipt now) where
  id := h.id
  estimated := h.estimated
  reserved := by simp [PaidWorkRow.completed, PaidWorkRow.unleased, PaidWorkRow.holdsUnits]
  createdAt := h.createdAt
  tenantId := h.tenantId
  periodId := h.periodId
  providerEventId := h.providerEventId
  operation := h.operation
  leased hs := by cases hs
  unleased _ := ⟨rfl, rfl, rfl⟩
  unsettled hs := absurd rfl hs
  settled _ := ⟨sequence, rfl, hseq⟩
  receipt _ := rfl
  holds hs := by simp [PaidWorkRow.completed, PaidWorkRow.unleased, PaidWorkRow.holdsUnits] at hs
  ready hs := by cases hs

theorem Captured.rowInv {db : Db} {w : PaidWorkRow} (h : Captured w) : RowInv db w where
  id := h.id
  estimated := h.estimated
  reserved := by simp [h.reserved, PaidWorkRow.holdsUnits, h.state]
  createdAt := h.createdAt
  tenantId := h.tenantId
  periodId := h.periodId
  providerEventId := h.providerEventId
  operation := h.operation
  leased hs := by simp [h.state] at hs
  unleased _ := h.lease
  unsettled _ := ⟨h.completed.1, h.completed.2, h.unsettled⟩
  settled hs := by simp [h.state] at hs
  receipt hs := by simp [h.state] at hs
  holds hs := by simp [h.state, PaidWorkRow.holdsUnits] at hs
  ready hs := by simp [h.state] at hs

theorem WorkMove.rowInv {db : Db} {w w' : PaidWorkRow} (hmove : WorkMove B u db w w') (h : RowInv db w) :
    RowInv db w' := by
  cases hmove with
  | evaluate now hs =>
    exact h.evaluated (by rcases hs with hs | hs <;> simp [hs]) (fun _ _ _ hp => hp) rfl rfl
  | free now db₁ hs hdb =>
    subst hdb
    have : RowInv db (w.unleased .captured none now) := h.rest (by simp [hs]) (.inr (.inl rfl))
    exact this.evaluated (by simp [PaidWorkRow.unleased]) (fun _ _ _ hp => hp) rfl rfl
  | claim owner token leaseUntil now hs _ ho => exact h.claim hs ho
  | renew leaseUntil now hs => exact h.renew hs
  | requestCancel requestedAt now hs => exact h.requestCancel hs
  | cancel requestedAt now hs => exact h.rest hs (.inr (.inr rfl))

/-! ## Suspension -/

theorem latestControl_congr {db db' : Db} (h : db'.entries = db.entries) : db'.isSuspended = db.isSuspended := by
  funext t
  simp only [Db.isSuspended, Db.latestControl, h]

/-- The latest control after an entry: the entry, if it is one of the tenant's controls. -/
theorem latestControl_insertEntry {db db' : Db} {input : EntryInput} {row : EntryRow}
    (h : insertEntry db input = .ok (row, db')) (t : String) :
    db'.latestControl t = if row.tenantId = t ∧ (row.kind = .suspend ∨ row.kind = .resume) then some row
      else db.latestControl t := by
  obtain ⟨-, entries, hins, rfl⟩ := insertEntry_ok.1 h
  simp only [Db.latestControl, (Table.insert?_eq_some.1 hins).2, List.reverse_append, List.reverse_singleton,
    List.singleton_append, List.find?_cons]
  split
  · next hc => rw [if_pos (by simpa using hc)]
  · next hc => rw [if_neg (by simpa using hc)]

theorem evaluation_suspended {db : Db} {w : PaidWorkRow} {now : Int} (h : db.isSuspended w.tenantId = true) :
    (w.evaluated (evaluation B db w now) now).isOpen = false := by
  simp [evaluation, h, PaidWorkRow.evaluated, PaidWorkRow.unleased, PaidWorkRow.isOpen]

/-- A suspended tenant's row does not become captured or ready. -/
theorem WorkMove.isOpen {db : Db} {w w' : PaidWorkRow} (hmove : WorkMove B u db w w')
    (hs : db.isSuspended w.tenantId = true) : w'.isOpen = false := by
  cases hmove with
  | evaluate now _ => exact evaluation_suspended hs
  | free now db₁ _ hdb =>
    subst hdb
    exact evaluation_suspended hs
  | claim owner token leaseUntil now _ _ _ => rfl
  | renew leaseUntil now hw => simp [PaidWorkRow.isOpen, hw]
  | requestCancel requestedAt now hw => simp [PaidWorkRow.isOpen, hw]
  | cancel requestedAt now _ => rfl

theorem WorkMove.tenantId {db : Db} {w w' : PaidWorkRow} (hmove : WorkMove B u db w w') :
    w'.tenantId = w.tenantId := by
  cases hmove <;> rfl

/-! ## The invariant -/

structure LedgerInv (db : Db) : Prop where
  ordered : Ordered db
  totals : TotalsSound db
  work : ∀ w ∈ db.work.rows, RowInv db w
  suspended : ∀ w ∈ db.work.rows, db.isSuspended w.tenantId = true → w.isOpen = false

theorem LedgerInv.empty : LedgerInv Db.empty where
  ordered := ⟨.nil, by simp [Db.empty]⟩
  totals _ _ := rfl
  work := by simp [Db.empty]
  suspended := by simp [Db.empty]

theorem LedgerInv.pointsBack {db : Db} (h : LedgerInv db) : PointsBack db := by
  intro w hw n hn
  by_cases hd : w.state = .done
  · obtain ⟨m, hm, hle⟩ := (h.work w hw).settled hd
    rw [hn] at hm
    obtain rfl := Option.some.inj hm
    exact hle
  · rw [((h.work w hw).unsettled hd).2.2.1] at hn
    cases hn

/-- A database that differs in its work only, each row of which is sound. -/
theorem LedgerInv.of_work {db db' : Db} (h : LedgerInv db) (hp : db'.periods = db.periods)
    (he : db'.entries = db.entries) (ht : db'.totals = db.totals) (hl : db'.lastSequence = db.lastSequence)
    (hrow : ∀ w ∈ db'.work.rows, RowInv db w ∧ (db.isSuspended w.tenantId = true → w.isOpen = false)) :
    LedgerInv db' := by
  obtain ⟨periods, entries, totals, work, last⟩ := db'
  simp only at hp he ht hl hrow
  subst hp he ht hl
  exact {
    ordered := ⟨h.ordered.sorted, h.ordered.le_last⟩
    totals := h.totals
    work := fun w hw => (hrow w hw).1.mono (fun _ _ _ h => h) (le_refl _)
    suspended := fun w hw => (hrow w hw).2 }

theorem LedgerInv.updateWork {db : Db} (h : LedgerInv db) {p : PaidWorkRow → Bool} {g : PaidWorkRow → PaidWorkRow} {hg}
    (hrow : ∀ w ∈ db.work.rows, p w = true →
      RowInv db (g w) ∧ (db.isSuspended (g w).tenantId = true → (g w).isOpen = false)) :
    LedgerInv (db.updateWork p g hg) := by
  refine h.of_work rfl rfl rfl rfl fun v hv => ?_
  simp only [Db.updateWork, Table.rows_update, List.mem_map] at hv
  obtain ⟨w, hw, rfl⟩ := hv
  split
  · next hp => exact hrow w hw hp
  · exact ⟨h.work w hw, h.suspended w hw⟩

theorem LedgerInv.insertEntry {db db' : Db} {input : EntryInput} {row : EntryRow} (h : LedgerInv db)
    (hctl : input.kind = .suspend → ∀ w ∈ db.work.rows, w.tenantId = input.tenantId → w.isOpen = false)
    (hins : insertEntry db input = .ok (row, db')) : LedgerInv db' := by
  have hlatest := latestControl_insertEntry hins
  refine ⟨h.ordered.insertEntry hins, h.totals.insertEntry hins, ?_, ?_⟩
  all_goals
    obtain ⟨rfl, entries, hrows, rfl⟩ := insertEntry_ok.1 hins
    intro w hw
  · exact (h.work w hw).mono (fun _ _ _ h => h) (Nat.le_succ _)
  · intro hs
    simp only [Db.isSuspended, hlatest] at hs
    split at hs
    · next latest hl =>
      split at hl
      · next hc =>
        obtain rfl := Option.some.inj hl
        simp only [decide_eq_true_eq] at hs
        exact hctl hs w hw hc.1.symm
      · exact h.suspended w hw (by simp only [Db.isSuspended, hl]; exact hs)
    · cases hs

theorem LedgerInv.write {db db' : Db} (h : LedgerInv db) (hw : Write B u db db') : LedgerInv db' := by
  cases hw with
  | period row periods hlt ht hp hins =>
    exact {
      ordered := ⟨h.ordered.sorted, h.ordered.le_last⟩
      totals := h.totals
      work := fun w hw => (h.work w hw).mono (periodsKept_insert hins) (le_refl _)
      suspended := h.suspended }
  | book input row _ hguard hins =>
    refine h.insertEntry (fun hk => ?_) hins
    cases hguard with
    | suspend _ _ hclosed => exact hclosed
    | grant _ hk' | adjustment _ hk' | usage _ hk' | expiry _ hk' | resume hk' => rw [hk] at hk'; cases hk'
  | pause p reason now hp =>
    refine h.updateWork fun w hw hpw => ⟨(h.work w hw).rest ?_ (.inl rfl), fun _ => rfl⟩
    have := hp w hpw
    rintro hd
    simp [PaidWorkRow.isOpen, hd] at this
  | move w g hg hmem hmove =>
    refine h.updateWork fun v hv hid => ?_
    obtain rfl := work_ext hv hmem (by simpa using hid)
    exact ⟨hmove.rowInv (h.work v hv), fun hs => hmove.isOpen (hmove.tenantId ▸ hs)⟩
  | capture row work db₁ now hc hins hdb =>
    subst hdb
    have hrows := (Table.insert?_eq_some.1 hins).2
    have hmem : row ∈ work.rows := by simp [hrows]
    have hsame : ∀ w ∈ work.rows, w.id = row.id → w = row :=
      fun w hw hid => Table.eq_of_identifies (identifies_id row.id) hw hmem (by simpa using hid) (by simp)
    refine h.of_work rfl rfl rfl rfl fun v hv => ?_
    simp only [Db.updateWork, Table.rows_update, List.mem_map] at hv
    obtain ⟨w, hw, rfl⟩ := hv
    split
    · next hid =>
      obtain rfl := hsame w hw (by simpa using hid)
      refine ⟨hc.captured.rowInv.evaluated (by simp [hc.captured.state]) (fun _ _ _ h => h) rfl rfl, fun hs => ?_⟩
      exact evaluation_suspended (by exact hs)
    · next hid =>
      have hold : w ∈ db.work.rows := by
        rw [hrows, List.mem_append, List.mem_singleton] at hw
        rcases hw with hw | rfl
        · exact hw
        · simp at hid
      exact ⟨h.work w hold, h.suspended w hold⟩

theorem LedgerInv.steps {db db' : Db} (h : LedgerInv db) (hs : Steps B u db db') : LedgerInv db' := by
  induction hs with
  | refl => exact h
  | tail _ hw ih => exact ih.write hw

/-- The entry a settlement points at is there. -/
theorem Charge.inv {owned : Int} {w : PaidWorkRow} {db db' : Db} {e : EntryRow} (h : LedgerInv db)
    (hc : Charge B owned w db e db') : LedgerInv db' ∧ e.sequence ≤ db'.lastSequence ∧ db'.work = db.work := by
  cases hc with
  | replay _ he => exact ⟨h, h.ordered.le_last e he, rfl⟩
  | book input _ _ hk _ _ _ _ hins =>
    refine ⟨h.insertEntry (fun hk' => ?_) hins, ?_, insertEntry_work hins⟩
    · rw [hk] at hk'
      cases hk'
    · obtain ⟨rfl, entries, -, rfl⟩ := insertEntry_ok.1 hins
      exact le_refl _

theorem LedgerInv.settle {db db' : Db} {w : PaidWorkRow} {via : Via} (h : LedgerInv db)
    (hs : Settle B w db via db') : LedgerInv db' := by
  cases hs with
  | lease owner token receipt now e db₁ hw hstate hheld hlive hc =>
    obtain ⟨h₁, hseq, hwork⟩ := hc.inv h
    refine h₁.updateWork fun v hv hid => ⟨(h₁.work v hv).complete hseq, fun _ => rfl⟩
  | receipt receipt now owned e db₁ hw hdone hc =>
    obtain ⟨h₁, hseq, hwork⟩ := hc.inv h
    refine h₁.updateWork fun v hv hid => ⟨(h₁.work v hv).complete hseq, fun _ => rfl⟩

/-- What writes and settlements keep, every method keeps. -/
theorem LedgerOp.preserves {P : Db → Prop} (op : LedgerOp) (hback : ∀ db, P db → PointsBack db)
    (hwrite : ∀ db db', P db → Write B op.draw db db' → P db')
    (hsettle : ∀ w db via db', P db → Settle B w db via db' → P db') {db : Db} (h : P db) : P (op.after B db) := by
  have hsteps : ∀ {db'}, Steps B op.draw db db' → P db' := by
    intro db' hs
    induction hs with
    | refl => exact h
    | tail _ hw ih => exact hwrite _ _ ih hw
  have hsweep : ∀ {now : Int} {n : Nat} {db'}, reconcileExpiredPeriodsInTransaction B now db = .ok (n, db') → P db' :=
    fun h => hsteps (sweep_steps h)
  cases hop : op.settles with
  | none => exact hsteps (op.steps hop db)
  | some id =>
    cases op with
    | completePaidWork input now =>
      rw [after_completePaidWork]
      rcases completePaidWork_cases input now (hback db h) with hdb | ⟨n, db₁, hs, hdb | ⟨w, -, -, -, -, -, hw⟩⟩
      · rw [hdb]; exact h
      · rw [hdb]; exact hsweep hs
      · exact hsettle _ _ _ _ (hsweep hs) hw
    | completePaidWorkFromDurableReceipt input now =>
      rw [after_receipt]
      rcases receipt_cases input now (hback db h) with
        hdb | ⟨n, db₁, hs, hdb | ⟨w, -, -, -, -, -, v, -, -, hw⟩⟩
      · rw [hdb]; exact h
      · rw [hdb]; exact hsweep hs
      · exact hsettle _ _ _ _ (hsweep hs) hw
    | _ => cases hop

theorem LedgerInv.after {db : Db} (op : LedgerOp) (h : LedgerInv db) : LedgerInv (op.after B db) :=
  op.preserves (fun _ h => h.pointsBack) (fun _ _ h hw => h.write hw) (fun _ _ _ _ h hs => h.settle hs) h

/-- **Every database a run reaches is sound.** -/
theorem Reachable.inv {db : Db} (h : Reachable B db) : LedgerInv db :=
  h.invariant .empty fun op _ h => h.after op

end Zenod.Phylax
