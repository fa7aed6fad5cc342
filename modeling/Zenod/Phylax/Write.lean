/-
What the ledger's statements can do to the database, said once: every method
is a sequence of `Write`s (`Steps`), except that the two completions may end
with a `Settle`. An invariant of the ledger is then a short case analysis on
these, whatever method made the write.

The relation is indexed by what the running method has drawn a UUID for: an
admission stores it as the new work's id, a claim as the lease token.
-/
import Mathlib.Logic.Relation
import Zenod.Phylax.Check

namespace Zenod.Phylax

/-! ## Finding rows -/

theorem identifies_id (id : String) : Table.Identifies fun w : PaidWorkRow => decide (w.id = id) := by
  intro a b ha hb
  simp only [decide_eq_true_eq] at ha hb
  simp [Keyed.clash, ha, hb]

theorem workById_mem {db : Db} {id : String} {w : PaidWorkRow} (h : db.workById id = some w) :
    w ∈ db.work.rows ∧ w.id = id :=
  ⟨List.mem_of_find?_eq_some h, by simpa using List.find?_some h⟩

theorem workById_of_mem {db : Db} {w : PaidWorkRow} (h : w ∈ db.work.rows) : db.workById w.id = some w :=
  Table.find?_of_mem (identifies_id w.id) h (by simp)

theorem work_ext {db : Db} {a b : PaidWorkRow} (ha : a ∈ db.work.rows) (hb : b ∈ db.work.rows)
    (hid : a.id = b.id) : a = b := by
  have h₁ := workById_of_mem ha
  rw [hid, workById_of_mem hb] at h₁
  exact (Option.some.inj h₁).symm

theorem theWork_ok {db : Db} {id : String} {w : PaidWorkRow} : theWork db id = .ok w ↔ db.workById id = some w := by
  unfold theWork
  split
  · next h => simp [h]
  · next h => simp [h]

/-! ## One row moves -/

/-- What a statement that is no settlement may do to one row of paid work. -/
inductive WorkMove (B : Backend) (u : Option Draw) (db : Db) (w : PaidWorkRow) : PaidWorkRow → Prop
  /-- `evaluateWork` on a waiting row. -/
  | evaluate (now : Int) : w.state = .captured ∨ w.state = .paused →
      WorkMove B u db w (w.evaluated (evaluation B db w now) now)
  /-- A lease is over (reclaimed when it expired, or released by its claim): the
  row is captured again and evaluated, against a database `db₁` where its
  reservation is free. -/
  | free (now : Int) (db₁ : Db) : w.state = .processing →
      db₁ = db.updateWork (fun v => v.id = w.id) (·.unleased .captured none now) (PaidWorkRow.keeps fun _ => rfl) →
      WorkMove B u db w
        ((w.unleased .captured none now).evaluated (evaluation B db₁ (w.unleased .captured none now) now) now)
  | claim (owner : String) (token : Uuid) (leaseUntil now : Int) : w.state = .ready → u = some (.lease token) →
      Normalized 512 owner → WorkMove B u db w (w.leased owner token.text leaseUntil now)
  | renew (leaseUntil now : Int) : w.state = .processing →
      WorkMove B u db w { w with leaseUntil := some leaseUntil, updatedAt := now }
  | requestCancel (requestedAt now : Int) : w.state = .processing →
      WorkMove B u db w { w with cancellationRequestedAt := some requestedAt, updatedAt := now }
  | cancel (requestedAt : Option Int) (now : Int) : w.state ≠ .done →
      WorkMove B u db w { w.unleased .cancelled none now with cancellationRequestedAt := requestedAt }

/-! ## One entry is booked -/

/-- What may be booked that is no settlement of paid work, by kind. -/
inductive BookGuard (B : Backend) (db : Db) (input : EntryInput) : Prop
  | grant (p : String) : input.kind = .grant → input.periodId = some p → 0 < input.amountUnits →
      BookGuard B db input
  | adjustment (p : String) : input.kind = .adjustment → input.periodId = some p →
      -input.amountUnits ≤ availableInPeriod B db input.tenantId p → BookGuard B db input
  | usage (p : String) : input.kind = .usage → input.periodId = some p → input.amountUnits ≤ 0 →
      -input.amountUnits ≤ availableInPeriod B db input.tenantId p → BookGuard B db input
  | expiry (p : String) : input.kind = .expiry → input.periodId = some p → 0 < -input.amountUnits →
      -input.amountUnits = periodBalance B db input.tenantId p - db.processingInPeriod input.tenantId p →
      (∀ w ∈ db.work.rows, w.isIn input.tenantId p = true → w.isOpen = false) → BookGuard B db input
  | suspend : input.kind = .suspend → input.periodId = none →
      (∀ w ∈ db.work.rows, w.tenantId = input.tenantId → w.isOpen = false) → BookGuard B db input
  | resume : input.kind = .resume → input.periodId = none → BookGuard B db input

/-- What `admitPaidWork` inserts, before it is evaluated. -/
structure Captured (w : PaidWorkRow) : Prop where
  id : ∃ drawn : Uuid, w.id = drawn.text
  state : w.state = .captured
  reserved : w.reservedUnits = 0
  estimated : 0 ≤ w.estimatedUnits ∧ Js.isSafeInteger w.estimatedUnits = true
  createdAt : ValidTime w.createdAt
  lease : w.leaseOwner = none ∧ w.leaseToken = none ∧ w.leaseUntil = none
  completed : w.completedLeaseOwner = none ∧ w.completedLeaseToken = none
  unsettled : w.usageEntrySequence = none ∧ w.providerReceiptId = none
  tenantId : Normalized 512 w.tenantId
  periodId : Normalized 512 w.periodId
  providerEventId : Normalized 512 w.providerEventId
  operation : Normalized 512 w.operation

/-- The row an admission inserts under the id it has drawn. -/
def Admitted (B : Backend) (u : Option Draw) (w : PaidWorkRow) : Prop :=
  ∃ input id n now at_, u = some (.admission input id) ∧ AdmitInput.normalize input now = .ok n ∧
    w = capturedRow id.text n (payloadHash B.sha256 n.payload) at_

inductive Write (B : Backend) (u : Option Draw) (db : Db) : Db → Prop
  | period (row : PeriodRow) (periods : Table PeriodRow) : row.startsAt < row.endsAt →
      Normalized 512 row.tenantId → Normalized 512 row.periodId → db.periods.insert? row = some periods →
      Write B u db { db with periods := periods }
  | book (input : EntryInput) (row : EntryRow) (db' : Db) : BookGuard B db input →
      insertEntry db input = .ok (row, db') → Write B u db db'
  /-- Captured and ready rows are paused. -/
  | pause (p : PaidWorkRow → Bool) (reason : PauseReason) (now : Int) : (∀ w, p w = true → w.isOpen = true) →
      Write B u db (db.updateWork p (·.unleased .paused (some reason) now) (PaidWorkRow.keeps fun _ => rfl))
  | move (w : PaidWorkRow) (g : PaidWorkRow → PaidWorkRow) (hg : ∀ r s, Keyed.clash (g r) s = Keyed.clash r s) :
      w ∈ db.work.rows → WorkMove B u db w (g w) → Write B u db (db.updateWork (fun v => v.id = w.id) g hg)
  /-- A captured row is inserted and evaluated. -/
  | capture (row : PaidWorkRow) (work : Table PaidWorkRow) (db₁ : Db) (now : Int) : Admitted B u row →
      db.work.insert? row = some work → db₁ = { db with work := work } →
      Write B u db (db₁.updateWork (fun v => v.id = row.id) (·.evaluated (evaluation B db₁ row now) now)
        (PaidWorkRow.keeps fun _ => rfl))

/-- Any number of writes. -/
abbrev Steps (B : Backend) (u : Option Draw) : Db → Db → Prop := Relation.ReflTransGen (Write B u)

/-! ## One work is settled -/

/-- How a settlement is authorised. -/
inductive Via | lease | receipt
deriving DecidableEq

/-- The entry a settlement points at: one already there, or a usage it books. -/
inductive Charge (B : Backend) (owned : Int) (w : PaidWorkRow) (db : Db) : EntryRow → Db → Prop
  | replay (e : EntryRow) : e ∈ db.entries.rows → Charge B owned w db e db
  | book (input : EntryInput) (e : EntryRow) (db₁ : Db) : input.kind = .usage → input.tenantId = w.tenantId →
      input.periodId = some w.periodId → input.amountUnits ≤ 0 →
      -input.amountUnits ≤ availableInPeriod B db w.tenantId w.periodId + owned →
      insertEntry db input = .ok (e, db₁) → Charge B owned w db e db₁

/-- A work that is not done is marked done. -/
inductive Settle (B : Backend) (w : PaidWorkRow) (db : Db) : Via → Db → Prop
  | lease (owner token receipt : String) (now : Int) (e : EntryRow) (db₁ : Db) : w ∈ db.work.rows →
      w.state = .processing → w.heldBy owner token = true → w.leaseLive now = true →
      Charge B w.reservedUnits w db e db₁ →
      Settle B w db .lease (db₁.updateWork (fun v => v.id = w.id) (·.completed owner token e.sequence receipt now)
        (PaidWorkRow.keeps fun _ => rfl))
  | receipt (receipt : String) (now : Int) (owned : Int) (e : EntryRow) (db₁ : Db) : w ∈ db.work.rows →
      w.state ≠ .done → Charge B owned w db e db₁ →
      Settle B w db .receipt (db₁.updateWork (fun v => v.id = w.id) (·.receipted e.sequence receipt now)
        (PaidWorkRow.keeps fun _ => rfl))

end Zenod.Phylax
