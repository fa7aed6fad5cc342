/-
Runs of the ledger: an operation is one call of a method with its arguments,
its clock readings and the UUID it draws, and a run is a list of them, each
committed or rolled back before the next (every method runs in one immediate
transaction, so calls of any number of workers interleave as whole
operations).
-/
import Zenod.Phylax.Ledger

namespace Zenod.Phylax

/-- The characters of a UUID's text. -/
def isUuidChar (c : Char) : Bool := "0123456789abcdef-".toList.contains c

/-- What `randomUUID` returns: 36 characters, hexadecimal digits and dashes. -/
@[ext] structure Uuid where
  text : String
  length_eq : text.toList.length = 36
  chars : text.toList.all isUuidChar = true

inductive LedgerOp
  | grantAllowance (input : GrantInput (Option Int)) (now : Nat → Int)
  | adjustAllowance (input : AdjustInput (Option Int)) (now : Nat → Int)
  | recordUsage (input : UsageInput (Option Int)) (now : Nat → Int)
  | suspendTenant (input : ControlInput (Option Int)) (now : Nat → Int)
  | resumeTenant (input : ControlInput (Option Int)) (now : Nat → Int)
  | reconcileExpiredPeriods (at_ : Int)
  | admitPaidWork (input : AdmitInput (Option Int)) (now : Nat → Int) (randomUUID : Uuid)
  | resumePaused (tenantId : String) (at_ : Int)
  | reconcileExpiredPaidWork (at_ : Int)
  | claimNextPaidWork (tenantId workerId : String) (leaseMs at_ : Int) (randomUUID : Uuid)
  | claimPaidWork (workId tenantId workerId : String) (leaseMs at_ : Int) (randomUUID : Uuid)
  | renewPaidWorkLease (input : LeaseInput) (leaseMs : Int) (now : Nat → Int)
  | releasePaidWorkForRetry (input : LeaseInput) (now : Nat → Int)
  | cancelPaidWork (input : CancelInput) (now : Nat → Int)
  | completePaidWork (input : CompleteInput) (now : Nat → Int)
  | completePaidWorkFromDurableReceipt (input : ReceiptInput) (now : Nat → Int)

/-- What a method returns. -/
inductive LedgerResult
  | mutation (value : LedgerMutation)
  | count (value : Nat)
  | admission (value : PaidWorkAdmission)
  | claim (value : Option PaidWork)
  | work (value : PaidWork)
  | completion (value : Completion)
deriving DecidableEq

variable (B : Backend)

/-- Call the method: what it returns or throws, and the database it leaves. -/
def LedgerOp.run (op : LedgerOp) (db : Db) : Except LedgerError LedgerResult × Db :=
  match op with
  | .grantAllowance input now => (Phylax.grantAllowance B input now db).map (·.map .mutation) id
  | .adjustAllowance input now => (Phylax.adjustAllowance B input now db).map (·.map .mutation) id
  | .recordUsage input now => (Phylax.recordUsage B input now db).map (·.map .mutation) id
  | .suspendTenant input now => (Phylax.suspendTenant B input now db).map (·.map .mutation) id
  | .resumeTenant input now => (Phylax.resumeTenant B input now db).map (·.map .mutation) id
  | .reconcileExpiredPeriods at_ => (Phylax.reconcileExpiredPeriods B at_ db).map (·.map .count) id
  | .admitPaidWork input now randomUUID =>
    (Phylax.admitPaidWork B input now randomUUID.text db).map (·.map .admission) id
  | .resumePaused tenantId at_ => (Phylax.resumePaused B tenantId at_ db).map (·.map .count) id
  | .reconcileExpiredPaidWork at_ => (Phylax.reconcileExpiredPaidWork B at_ db).map (·.map .count) id
  | .claimNextPaidWork tenantId workerId leaseMs at_ randomUUID =>
    (Phylax.claimNextPaidWork B tenantId workerId leaseMs at_ randomUUID.text db).map (·.map .claim) id
  | .claimPaidWork workId tenantId workerId leaseMs at_ randomUUID =>
    (Phylax.claimPaidWork B workId tenantId workerId leaseMs at_ randomUUID.text db).map (·.map .claim) id
  | .renewPaidWorkLease input leaseMs now => (Phylax.renewPaidWorkLease input leaseMs now db).map (·.map .work) id
  | .releasePaidWorkForRetry input now => (Phylax.releasePaidWorkForRetry B input now db).map (·.map .work) id
  | .cancelPaidWork input now => (Phylax.cancelPaidWork input now db).map (·.map .work) id
  | .completePaidWork input now => (Phylax.completePaidWork B input now db).map (·.map .completion) id
  | .completePaidWorkFromDurableReceipt input now =>
    (Phylax.completePaidWorkFromDurableReceipt B input now db).map (·.map .completion) id

/-- The database an operation leaves. -/
def LedgerOp.after (op : LedgerOp) (db : Db) : Db := (op.run B db).2

@[simp] theorem after_completePaidWork (input : CompleteInput) (now : Nat → Int) (db : Db) :
    (LedgerOp.completePaidWork input now).after B db = (Phylax.completePaidWork B input now db).2 := by
  simp only [LedgerOp.after, LedgerOp.run, Prod.map_snd, id_eq]

@[simp] theorem after_receipt (input : ReceiptInput) (now : Nat → Int) (db : Db) :
    (LedgerOp.completePaidWorkFromDurableReceipt input now).after B db =
      (Phylax.completePaidWorkFromDurableReceipt B input now db).2 := by
  simp only [LedgerOp.after, LedgerOp.run, Prod.map_snd, id_eq]

/-- The UUID an operation draws. -/
def LedgerOp.uuid : LedgerOp → Option Uuid
  | .admitPaidWork _ _ u | .claimNextPaidWork _ _ _ _ u | .claimPaidWork _ _ _ _ _ u => some u
  | _ => none

/-- What a method draws a UUID for. -/
inductive Draw
  | admission (input : AdmitInput (Option Int)) (id : Uuid)
  | lease (token : Uuid)

def LedgerOp.draw : LedgerOp → Option Draw
  | .admitPaidWork input _ id => some (.admission input id)
  | .claimNextPaidWork _ _ _ _ token | .claimPaidWork _ _ _ _ _ token => some (.lease token)
  | _ => none

theorem LedgerOp.uuid_of_draw {op : LedgerOp} {token : Uuid} (h : op.draw = some (.lease token)) :
    op.uuid = some token := by
  cases op with
  | claimNextPaidWork _ _ _ _ _ | claimPaidWork _ _ _ _ _ _ =>
    simp only [LedgerOp.draw, Option.some.injEq, Draw.lease.injEq] at h
    simp only [LedgerOp.uuid, h]
  | _ => simp only [LedgerOp.draw, reduceCtorEq, Option.some.injEq] at h

/-- The work a settlement is for. -/
def LedgerOp.settles : LedgerOp → Option String
  | .completePaidWork input _ => some (Js.trim input.workId)
  | .completePaidWorkFromDurableReceipt input _ => some (Js.trim input.workId)
  | _ => none

/-- Run the operations one after another. -/
def runOps (ops : List LedgerOp) (db : Db) : Db := ops.foldl (fun db op => op.after B db) db

@[simp] theorem runOps_nil (db : Db) : runOps B [] db = db := rfl

@[simp] theorem runOps_cons (op : LedgerOp) (ops : List LedgerOp) (db : Db) :
    runOps B (op :: ops) db = runOps B ops (op.after B db) := rfl

theorem runOps_append (ops₁ ops₂ : List LedgerOp) (db : Db) :
    runOps B (ops₁ ++ ops₂) db = runOps B ops₂ (runOps B ops₁ db) := by
  simp [runOps]

/-- A database some run leaves, from the empty one. -/
def Reachable (db : Db) : Prop := ∃ ops, runOps B ops Db.empty = db

/-- What holds at first and after every operation holds of every reachable database. -/
theorem Reachable.invariant {B : Backend} {P : Db → Prop} (h₀ : P Db.empty)
    (hstep : ∀ (op : LedgerOp) db, P db → P (op.after B db)) {db : Db} (h : Reachable B db) : P db := by
  obtain ⟨ops, rfl⟩ := h
  suffices ∀ (ops : List LedgerOp) db, P db → P (runOps B ops db) from this ops _ h₀
  intro ops
  induction ops with
  | nil => exact fun _ h => h
  | cons op ops ih => exact fun db h => ih _ (hstep op db h)

end Zenod.Phylax
