/-
The durable queue of jobs (`taskJobStore.ts`): one table, and the statements
that processes run on it. A statement is atomic, a method of several is not:
`recoverExpiredRunning` is two updates, and other processes may come between.
-/
import Zenod.Lib.Table
import Zenod.Lib.Text

namespace Zenod.Jobs

open Keyed Text

inductive TaskJobKind | chat | task | work | store | mediaIngest | enrichMemory | treeSweep
deriving DecidableEq

inductive TaskJobStatus | queued | running | done | error | interrupted
deriving DecidableEq

def maxCaptureResumeAttempts : Nat := 3
def maxFilingResumeAttempts : Nat := 1
def taskJobLeaseMs : Int := 4 * 60000

/-- A row of task_jobs; the JSON columns are texts. -/
structure Row where
  id : Text
  tenantId : Option Text
  idempotencyKey : Option Text
  kind : TaskJobKind
  inputJson : Text
  status : TaskJobStatus := .queued
  resultJson : Option Text := none
  error : Option Text := none
  attempts : Nat := 0
  ownerId : Option Text := none
  claimToken : Option Text := none
  leaseExpiresAt : Option Int := none
  createdAt : Int
  updatedAt : Int
deriving DecidableEq

/-- `task_jobs_tenant_idempotency`: keys are unique within a tenant, where there is one. -/
def Row.sameKey (a b : Row) : Bool :=
  a.tenantId.isSome && a.tenantId == b.tenantId && a.idempotencyKey.isSome && a.idempotencyKey == b.idempotencyKey

instance : Keyed Row where
  clash a b := a.id == b.id || a.sameKey b
  clash_symm a b := by
    have hkey : a.sameKey b = b.sameKey a := by
      unfold Row.sameKey
      rw [Bool.eq_iff_iff]
      simp only [Bool.and_eq_true, beq_iff_eq]
      constructor <;> (rintro ⟨⟨⟨ht, he⟩, hk⟩, heq⟩; exact ⟨⟨⟨by rw [← he]; exact ht, he.symm⟩, by rw [← heq]; exact hk⟩, heq.symm⟩)
    rw [hkey, BEq.comm]

/-- One opened store: a process, with the id it drew for itself. -/
structure TaskJobStore where
  tenantId : Text
  ownerId : Text
deriving DecidableEq

/-- What a worker holds of the job it works on. -/
structure Claim where
  id : Text
  claimToken : Option Text
deriving DecidableEq

def TaskJobKind.isCapture : TaskJobKind → Bool
  | .store | .mediaIngest | .enrichMemory => true
  | .chat | .task | .work | .treeSweep => false

/-- An idempotency key is supported. -/
def TaskJobKind.takesKey : TaskJobKind → Bool
  | .chat | .store | .mediaIngest | .enrichMemory | .treeSweep => true
  | .task | .work => false

def Row.isOf (r : Row) (s : TaskJobStore) : Bool := r.tenantId = some s.tenantId

/-- The row is running under this store's live claim. -/
def Row.isLive (r : Row) (s : TaskJobStore) (token : Option Text) (now : Int) : Bool :=
  r.status = .running && r.ownerId = some s.ownerId && (token.isSome && r.claimToken = token) &&
    r.leaseExpiresAt.any (now < ·)

/-- Running, with a lease that has run out or none. -/
def Row.isExpired (r : Row) (s : TaskJobStore) (now : Int) : Bool :=
  r.isOf s && r.status = .running && r.leaseExpiresAt.all (· ≤ now)

/-- The row without its claim. -/
def Row.released (r : Row) (status : TaskJobStatus) (now : Int) : Row :=
  { r with status := status, ownerId := none, claimToken := none, leaseExpiresAt := none, updatedAt := now }

namespace TaskJobStore

variable (s : TaskJobStore)

/-! ## Opening -/

/-- A legacy database belongs to the runtime that opens it. -/
def backfilled (r : Row) : Row := if r.tenantId.all (· = []) then { r with tenantId := some s.tenantId } else r

/-- The update of the constructor: refused as a whole when two rows would clash. -/
def backfill (t : Table Row) : Table Row :=
  if h : (t.rows.map s.backfilled).Pairwise fun a b => clash a b = false then ⟨t.rows.map s.backfilled, h⟩ else t

/-- The first statement of `recoverExpiredRunning`. -/
def requeueExpired (now : Int) (t : Table Row) : Table Row :=
  t.update (fun r => r.isExpired s now && r.kind.isCapture && r.attempts < maxCaptureResumeAttempts)
    (fun r => { r.released .queued now with attempts := r.attempts + 1 }) fun _ _ => rfl

def interruptedText (r : Row) : Text :=
  if r.kind.isCapture then
    "interrupted by a server restart (gave up after ".toList ++ (toString r.attempts).toList ++ " retries)".toList
  else "interrupted by a server restart".toList

/-- The second statement of `recoverExpiredRunning`. -/
def interruptExpired (now : Int) (t : Table Row) : Table Row :=
  t.update (fun r => r.isExpired s now) (fun r => { r.released .interrupted now with error := some (interruptedText r) })
    fun _ _ => rfl

def recoverExpiredRunning (now : Int) (t : Table Row) : Table Row := s.interruptExpired now (s.requeueExpired now t)

/-! ## Enqueueing -/

/-- `enqueue`, with the id that `randomUUID` draws and the input as JSON. -/
def enqueue (id : Text) (kind : TaskJobKind) (inputJson : Text) (idempotencyKey : Option Text) (now : Int) (t : Table Row) :
    Except Text (Row × Table Row) :=
  let row : Row := {
    id := id, tenantId := some s.tenantId, idempotencyKey := idempotencyKey.map trim, kind := kind, inputJson := inputJson
    createdAt := now, updatedAt := now }
  match idempotencyKey.map trim with
  | some key =>
    if key = [] then throw "idempotencyKey must not be empty".toList
    else if 512 < utf16Length key then throw "idempotencyKey must be at most 512 characters".toList
    else if kind.takesKey = false then
      throw "idempotencyKey is only supported for durable channel/capture jobs and the weekly tree sweep".toList
    else
      -- `ON CONFLICT DO NOTHING`
      let t := (t.insert? row).getD t
      match t.rows.find? fun r => r.isOf s && r.idempotencyKey = some key with
      | none => throw "Failed to resolve idempotent capture job".toList
      | some existing => pure (existing, t)
  | none =>
    match t.insert? row with
    | none => throw "UNIQUE constraint failed: task_jobs.id".toList
    | some t => pure (row, t)

/-! ## Claiming -/

def queuedRows (kinds : Option (List TaskJobKind)) (t : Table Row) : List Row :=
  t.rows.filter fun r => r.isOf s && r.status = .queued && kinds.all (·.contains r.kind)

/-- The rows that may come first: those created first, in any order. -/
def oldest (rows : List Row) : List Row := rows.filter fun r => rows.all fun o => r.createdAt ≤ o.createdAt

def claimed (token : Text) (now : Int) (r : Row) : Row :=
  { r with
    status := .running, ownerId := some s.ownerId, claimToken := some token, leaseExpiresAt := some (now + taskJobLeaseMs)
    updatedAt := now }

/-- `claimNextQueued`, with the token that `randomUUID` draws: the job and the table, one for each row that may come
first. -/
def claimNextQueued (token : Text) (now : Int) (kinds : Option (List TaskJobKind)) (t : Table Row) :
    List (Option Row × Table Row) :=
  if kinds = some [] then [(none, t)]
  else
    match oldest (s.queuedRows kinds t) with
    | [] => [(none, t)]
    | rows => rows.map fun row => (some (s.claimed token now row),
        t.update (fun r => r.isOf s && r.status = .queued && r.id = row.id) (s.claimed token now) fun _ _ => rfl)

/-! ## Under a claim -/

/-- An update of the row a claim is for, and whether it was one. -/
def updateRow (p : Row → Bool) (f : Row → Row) (hf : ∀ r r', clash (f r) r' = clash r r') (t : Table Row) : Bool × Table Row :=
  (t.count p == 1, t.update p f hf)

def renewClaim (claim : Claim) (now : Int) (t : Table Row) : Bool × Table Row :=
  updateRow (fun r => r.isOf s && r.id = claim.id && r.isLive s claim.claimToken now)
    (fun r => { r with leaseExpiresAt := some (now + taskJobLeaseMs), updatedAt := now }) (fun _ _ => rfl) t

/-- Execution/publish fence. -/
def assertClaim (claim : Claim) (now : Int) (t : Table Row) : Except Text Unit :=
  if t.rows.any fun r => r.isOf s && r.id = claim.id && r.isLive s claim.claimToken now then pure ()
  else throw "task_job_claim_lost".toList

def requeueFiling (claim : Claim) (resultJson error : Option Text) (now : Int) (t : Table Row) : Bool × Table Row :=
  updateRow
    (fun r => r.isOf s && r.id = claim.id && r.kind = .enrichMemory && r.isLive s claim.claimToken now &&
      r.attempts < maxFilingResumeAttempts)
    (fun r => { r.released .queued now with
      resultJson := resultJson.or r.resultJson, error := error, attempts := r.attempts + 1 }) (fun _ _ => rfl) t

end TaskJobStore

inductive Filing | filed | uncertain | inbox | pending
deriving DecidableEq

/-- A `StoreResult`: how it was filed, and its JSON. -/
structure StoreResult where
  filing : Filing
  json : Text
deriving DecidableEq

structure TaskJobPatch where
  status : Option TaskJobStatus := none
  result : Option (Option Text) := none
  error : Option (Option Text) := none
deriving DecidableEq

namespace TaskJobStore

variable (s : TaskJobStore)

def resumePending (claim : Claim) (result : StoreResult) (now : Int) (t : Table Row) : Bool × Table Row :=
  if result.filing = .pending then s.requeueFiling claim (some result.json) none now t else (false, t)

def resumePublicationFailure (claim : Claim) (error : Text) (now : Int) (t : Table Row) : Bool × Table Row :=
  s.requeueFiling claim none (some error) now t

/-- The columns a patch sets. -/
def patched (patch : TaskJobPatch) (claimedOnly : Bool) (now : Int) (r : Row) : Row :=
  let clears := claimedOnly && patch.status.any (· ≠ .running)
  { r with
    status := patch.status.getD r.status, resultJson := patch.result.getD r.resultJson, error := patch.error.getD r.error
    ownerId := if clears then none else r.ownerId, claimToken := if clears then none else r.claimToken
    leaseExpiresAt := if clears then none else r.leaseExpiresAt, updatedAt := now }

/-- A patch by id, or under a claim. -/
def applyPatch (id : Text) (patch : TaskJobPatch) (now : Int) (claimToken : Option (Option Text)) (t : Table Row) :
    Bool × Table Row :=
  if patch = {} then (false, t)
  else
    updateRow (fun r => r.isOf s && r.id = id && claimToken.all fun token => r.isLive s token now)
      (patched patch claimToken.isSome now) (fun _ _ => rfl) t

def update (id : Text) (patch : TaskJobPatch) (now : Int) (t : Table Row) : Table Row := (s.applyPatch id patch now none t).2

/-- Finish a job only while this store still owns its live claim. -/
def updateClaimed (claim : Claim) (patch : TaskJobPatch) (now : Int) (t : Table Row) : Bool × Table Row :=
  s.applyPatch claim.id patch now (some claim.claimToken) t

/-! ## Requeueing -/

/-- The row back in the queue, with a fresh budget of retries. -/
def requeued (now : Int) (r : Row) : Row := { r.released .queued now with attempts := 0, error := none }

def requeueForRecovery (id : Text) (now : Int) (t : Table Row) : Bool × Table Row :=
  updateRow (fun r => r.isOf s && r.id = id && !(r.status = .queued || r.status = .running)) (requeued now) (fun _ _ => rfl) t

/-- `text LIKE 'pattern%'`: an underscore is any character, and letters are of any case. -/
def likePrefix : Text → Text → Bool
  | [], _ => true
  | _ :: _, [] => false
  | p :: pattern, c :: text => (p = '_' || p.toLower = c.toLower) && likePrefix pattern text

/-- `error LIKE '%filing_recovery_pending%'`. -/
def filingRecoveryPending (error : Text) : Bool := error.tails.any (likePrefix "filing_recovery_pending".toList)

def isRecoveryBlocked (r : Row) : Bool :=
  r.isOf s && r.status = .error && r.kind.isCapture && r.error.any filingRecoveryPending

def requeueFilingRecoveryBlocked (now : Int) (t : Table Row) : Nat × Table Row :=
  (t.count s.isRecoveryBlocked, t.update s.isRecoveryBlocked (requeued now) fun _ _ => rfl)

end TaskJobStore

/-! ## Runs -/

/-- A statement of some process. -/
inductive Op
  | backfill (s : TaskJobStore)
  | requeueExpired (s : TaskJobStore) (now : Int)
  | interruptExpired (s : TaskJobStore) (now : Int)
  | enqueue (s : TaskJobStore) (id : Text) (kind : TaskJobKind) (inputJson : Text) (idempotencyKey : Option Text) (now : Int)
  | claimNextQueued (s : TaskJobStore) (token : Text) (now : Int) (kinds : Option (List TaskJobKind))
  | renewClaim (s : TaskJobStore) (claim : Claim) (now : Int)
  | assertClaim (s : TaskJobStore) (claim : Claim) (now : Int)
  | updateClaimed (s : TaskJobStore) (claim : Claim) (patch : TaskJobPatch) (now : Int)
  | resumePending (s : TaskJobStore) (claim : Claim) (result : StoreResult) (now : Int)
  | resumePublicationFailure (s : TaskJobStore) (claim : Claim) (error : Text) (now : Int)
  | requeueForRecovery (s : TaskJobStore) (id : Text) (now : Int)
  | requeueFilingRecoveryBlocked (s : TaskJobStore) (now : Int)

/-- The tables a statement may leave. -/
def Op.outcomes (op : Op) (t : Table Row) : List (Table Row) :=
  match op with
  | .backfill s => [s.backfill t]
  | .requeueExpired s now => [s.requeueExpired now t]
  | .interruptExpired s now => [s.interruptExpired now t]
  | .enqueue s id kind inputJson key now =>
    match s.enqueue id kind inputJson key now t with
    | .ok (_, t') => [t']
    | .error _ => [t]
  | .claimNextQueued s token now kinds => (s.claimNextQueued token now kinds t).map (·.2)
  | .renewClaim s claim now => [(s.renewClaim claim now t).2]
  | .assertClaim _ _ _ => [t]
  | .updateClaimed s claim patch now => [(s.updateClaimed claim patch now t).2]
  | .resumePending s claim result now => [(s.resumePending claim result now t).2]
  | .resumePublicationFailure s claim error now => [(s.resumePublicationFailure claim error now t).2]
  | .requeueForRecovery s id now => [(s.requeueForRecovery id now t).2]
  | .requeueFilingRecoveryBlocked s now => [(s.requeueFilingRecoveryBlocked now t).2]

/-- The store and the claim an operation is made with. -/
def Op.carrier : Op → Option (TaskJobStore × Claim)
  | .renewClaim s claim _ => some (s, claim)
  | .assertClaim s claim _ => some (s, claim)
  | .updateClaimed s claim _ _ => some (s, claim)
  | .resumePending s claim _ _ => some (s, claim)
  | .resumePublicationFailure s claim _ _ => some (s, claim)
  | _ => none

/-- The token an operation draws. -/
def Op.token : Op → Option Text
  | .claimNextQueued _ token _ _ => some token
  | _ => none

/-- Statements of any processes, one after the other. -/
inductive Run : Table Row → List Op → Table Row → Prop
  | nil (t : Table Row) : Run t [] t
  | snoc {t₀ t t' : Table Row} {ops : List Op} (h : Run t₀ ops t) (op : Op) (hop : t' ∈ op.outcomes t) : Run t₀ (ops ++ [op]) t'

end Zenod.Jobs
