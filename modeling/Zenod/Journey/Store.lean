/-
The journey store: journeys, their steps, and `claimDueSteps`, which hands out
steps that are due, unleased and have their dependencies completed. A method is
one transaction on the two tables; the event log and the artifacts, which no
method here reads, are left out.
-/
import Zenod.Lib.Table
import Mathlib.Data.List.Sort

namespace Zenod.Journey

open Keyed

inductive JourneyStatus
  | active | completed | blocked | cancelled
deriving DecidableEq

inductive JourneyStepStatus
  | pending | dispatched | running | completed | blocked | failed | cancelled
deriving DecidableEq

structure JourneyRow where
  id : String
  status : JourneyStatus
deriving DecidableEq

/-- A row of journey_steps; the columns of JSON that is not read are texts. -/
structure StepRow where
  id : String
  journeyId : String
  sequence : Nat
  owner : String
  title : String
  input : String := "\x7b\x7d"
  status : JourneyStepStatus := .pending
  dependencyIds : List String := []
  idempotencyKey : Option String := none
  externalRefs : String := "\x7b\x7d"
  dispatchAfter : Option Int := none
  wakeAt : Option Int := none
  leaseUntil : Option Int := none
  attemptCount : Nat := 0
  deadlineAt : Option Int := none
  dispatchedAt : Option Int := none
  completedAt : Option Int := none
  result : Option String := none
  error : Option String := none
  blocker : Option String := none
  createdAt : Int
  updatedAt : Int
deriving DecidableEq

instance : Keyed JourneyRow where
  clash a b := a.id == b.id
  clash_symm _ _ := BEq.comm

/-- `journey_steps_idempotency`: keys are unique within a journey, where there is one. -/
def StepRow.sameKey (a b : StepRow) : Bool :=
  a.journeyId == b.journeyId && a.idempotencyKey.isSome && a.idempotencyKey == b.idempotencyKey

instance : Keyed StepRow where
  clash a b := a.id == b.id || a.sameKey b
  clash_symm a b := by
    have hkey : a.sameKey b = b.sameKey a := by
      unfold StepRow.sameKey
      rw [Bool.eq_iff_iff]
      simp only [Bool.and_eq_true, beq_iff_eq]
      constructor <;> (rintro ⟨⟨hj, hk⟩, he⟩; exact ⟨⟨hj.symm, by rw [← he]; exact hk⟩, he.symm⟩)
    rw [hkey, BEq.comm]

structure Store where
  journeys : Table JourneyRow := .empty
  steps : Table StepRow := .empty

inductive JourneyError
  | journeyNotFound (id : String)
  | stepNotFound (id : String)
  | uniqueConstraint
deriving DecidableEq

namespace Store

/-! ## Reading -/

def get (s : Store) (id : String) : Option JourneyRow := s.journeys.rows.find? (·.id = id)

def getStep (s : Store) (id : String) : Option StepRow := s.steps.rows.find? (·.id = id)

def stepByIdempotencyKey (s : Store) (journeyId key : String) : Option StepRow :=
  s.steps.rows.find? fun r => r.journeyId = journeyId && r.idempotencyKey = some key

/-- `COUNT(*)` of the completed steps among the ids, against the length of the list. -/
def dependenciesSatisfied (s : Store) (journeyId : String) (dependencyIds : List String) : Bool :=
  if dependencyIds.length = 0 then true
  else
    s.steps.count (fun r => r.journeyId = journeyId && dependencyIds.contains r.id && r.status = .completed)
      == dependencyIds.length

/-! ## Writing -/

/-- `UPDATE journey_steps SET ... WHERE id=?`, of columns that no constraint is on. -/
def setStep (s : Store) (id : String) (p : StepRow → Bool) (f : StepRow → StepRow)
    (hf : ∀ r t, clash (f r) t = clash r t) : Store :=
  { s with steps := s.steps.update (fun r => r.id = id && p r) f hf }

def setStatus (s : Store) (id : String) (p : JourneyRow → Bool) (status : JourneyStatus) : Store :=
  { s with journeys := s.journeys.update (fun j => j.id = id && p j) (fun j => { j with status := status }) fun _ _ => rfl }

/-- `create`, with the id that `randomUUID` draws. -/
def create (id : String) (s : Store) : Except JourneyError Store :=
  match s.journeys.insert? { id := id, status := .active } with
  | none => throw .uniqueConstraint
  | some journeys => pure { s with journeys := journeys }

end Store

structure AddJourneyStepInput where
  owner : String
  title : String
  input : String := "\x7b\x7d"
  dependencyIds : List String := []
  idempotencyKey : Option String := none
  externalRefs : String := "\x7b\x7d"
  dispatchAfter : Option Int := none
  wakeAt : Option Int := none
  deadlineAt : Option Int := none

namespace Store

def nextSequence (s : Store) (journeyId : String) : Nat :=
  ((s.steps.rows.filter fun r => r.journeyId = journeyId).map (·.sequence)).foldl max 0 + 1

def addStep (id journeyId : String) (input : AddJourneyStepInput) (now : Int) (s : Store) : Except JourneyError Store :=
  if (s.get journeyId).isNone then throw (.journeyNotFound journeyId)
  else if (input.idempotencyKey.any fun key => key ≠ "" && (s.stepByIdempotencyKey journeyId key).isSome) = true then pure s
  else
    match s.steps.insert? {
        id := id, journeyId := journeyId, sequence := s.nextSequence journeyId, owner := input.owner, title := input.title
        input := input.input, dependencyIds := input.dependencyIds, idempotencyKey := input.idempotencyKey
        externalRefs := input.externalRefs, dispatchAfter := input.dispatchAfter
        wakeAt := input.wakeAt.or input.dispatchAfter, deadlineAt := input.deadlineAt, createdAt := now, updatedAt := now } with
    | none => throw .uniqueConstraint
    | some steps => pure { s with steps := steps }

def requireStep (s : Store) (id : String) : Except JourneyError StepRow :=
  match s.getStep id with
  | none => throw (.stepNotFound id)
  | some step => pure step

def dispatchStep (stepId : String) (deadlineAt : Option Int) (now : Int) (s : Store) : Except JourneyError Store := do
  let _ ← s.requireStep stepId
  return s.setStep stepId (fun _ => true) (fun r => { r with
    status := .dispatched, deadlineAt := deadlineAt.or r.deadlineAt, wakeAt := deadlineAt.or r.wakeAt
    dispatchedAt := some now, updatedAt := now }) fun _ _ => rfl

def runStep (stepId : String) (deadlineAt : Option Int) (now : Int) (s : Store) : Except JourneyError Store := do
  let _ ← s.requireStep stepId
  return s.setStep stepId (fun _ => true) (fun r => { r with
    status := .running, deadlineAt := deadlineAt.or r.deadlineAt, wakeAt := deadlineAt.or r.wakeAt
    dispatchedAt := r.dispatchedAt.or (some now), updatedAt := now }) fun _ _ => rfl

/-- A pending step whose dependencies are satisfied wakes, where it has no time of its own. -/
def readyPendingDependents (journeyId : String) (now : Int) (s : Store) : Store :=
  let pending := s.steps.rows.filter fun r => r.journeyId = journeyId && r.status = .pending && r.dependencyIds ≠ []
  pending.foldl (fun s step =>
    if s.dependenciesSatisfied journeyId step.dependencyIds && step.wakeAt.isNone then
      s.setStep step.id (fun _ => true) (fun r => { r with wakeAt := some now, updatedAt := now }) fun _ _ => rfl
    else s) s

def completeStep (stepId result : String) (now : Int) (s : Store) : Except JourneyError Store := do
  let step ← s.requireStep stepId
  let s := s.setStep stepId (fun _ => true) (fun r => { r with
    status := .completed, result := some result, error := none, blocker := none, completedAt := some now
    leaseUntil := none, updatedAt := now }) fun _ _ => rfl
  return s.readyPendingDependents step.journeyId now

def completeJourneyIfReady (journeyId : String) (s : Store) : Store :=
  let remaining := s.steps.count fun r => r.journeyId = journeyId && !(r.status = .completed || r.status = .cancelled)
  if ((s.get journeyId).any fun j => j.status = .active) && remaining == 0 then
    s.setStatus journeyId (fun _ => true) .completed
  else s

def failStep (stepId error : String) (now : Int) (s : Store) : Except JourneyError Store := do
  let step ← s.requireStep stepId
  let s := s.setStep stepId (fun _ => true) (fun r => { r with
    status := .failed, error := some error, leaseUntil := none, updatedAt := now }) fun _ _ => rfl
  return s.setStatus step.journeyId (fun j => j.status = .active) .blocked

def blockStep (stepId reason : String) (now : Int) (s : Store) : Except JourneyError Store := do
  let step ← s.requireStep stepId
  let s := s.setStep stepId (fun _ => true) (fun r => { r with
    status := .blocked, error := some reason, blocker := some reason, leaseUntil := none, updatedAt := now }) fun _ _ => rfl
  return s.setStatus step.journeyId (fun j => j.status = .active) .blocked

end Store

/-! ## Claiming -/

/-- `COALESCE(wake_at, created_at)`. -/
def StepRow.dueKey (r : StepRow) : Int := r.wakeAt.getD r.createdAt

/-- How the database sorts by that key: rows with equal keys come in any order. -/
structure DueOrder where
  sort : List StepRow → List StepRow
  perm : ∀ rows, (sort rows).Perm rows
  sorted : ∀ rows, (sort rows).Pairwise fun a b => a.dueKey ≤ b.dueKey

/-- Equal keys in the order of insertion. -/
def DueOrder.stable : DueOrder where
  sort rows := rows.insertionSort fun a b => a.dueKey ≤ b.dueKey
  perm rows := List.perm_insertionSort _ rows
  sorted rows := by
    have : Std.Total fun a b : StepRow => a.dueKey ≤ b.dueKey := ⟨fun a b => Int.le_total _ _⟩
    have : IsTrans StepRow fun a b => a.dueKey ≤ b.dueKey := ⟨fun a b c h h' => Int.le_trans h h'⟩
    exact List.pairwise_insertionSort _ rows

def StepRow.unleased (now : Int) (r : StepRow) : Bool := r.leaseUntil.all (· ≤ now)

namespace Store

/-- The WHERE clause of the due query. -/
def isDue (s : Store) (now : Int) (r : StepRow) : Bool :=
  (s.journeys.rows.any fun j => j.id = r.journeyId && j.status = .active) &&
    (r.status = .pending || r.status = .dispatched || r.status = .running) &&
    r.wakeAt.all (· ≤ now) && r.unleased now

def due (s : Store) (now : Int) : List StepRow := s.steps.rows.filter (s.isDue now)

/-- The rows of the due query, as many as it asks for. -/
def dueRows (order : DueOrder) (now : Int) (limit : Nat) (s : Store) : List StepRow :=
  (order.sort (s.due now)).take (max (limit * 5) limit)

def claimable (order : DueOrder) (now : Int) (limit : Nat) (s : Store) : List StepRow :=
  ((s.dueRows order now limit).filter fun r => s.dependenciesSatisfied r.journeyId r.dependencyIds).take limit

def leased (now leaseMs : Int) (r : StepRow) : StepRow :=
  { r with leaseUntil := some (now + leaseMs), attemptCount := r.attemptCount + 1, updatedAt := now }

def claimDueSteps (order : DueOrder) (now leaseMs : Int) (limit : Nat) (s : Store) : List StepRow × Store :=
  let claimed := s.claimable order now limit
  let after := claimed.foldl (fun s row => s.setStep row.id (·.unleased now) (leased now leaseMs) fun _ _ => rfl) s
  (claimed.filterMap fun row => after.getStep row.id, after)

end Store

/-! ## Runs -/

inductive JourneyOp
  | create (id : String)
  | addStep (id journeyId : String) (input : AddJourneyStepInput) (now : Int)
  | dispatchStep (stepId : String) (deadlineAt : Option Int) (now : Int)
  | runStep (stepId : String) (deadlineAt : Option Int) (now : Int)
  | readyPendingDependents (journeyId : String) (now : Int)
  | completeStep (stepId result : String) (now : Int)
  | completeJourneyIfReady (journeyId : String)
  | failStep (stepId error : String) (now : Int)
  /-- Of one step, or of each step that `overdueSteps` finds. -/
  | blockStep (stepId reason : String) (now : Int)
  | claimDueSteps (order : DueOrder) (now leaseMs : Int) (limit : Nat)

/-- A method that throws leaves the store as it was. -/
def JourneyOp.after (op : JourneyOp) (s : Store) : Store :=
  let settle (e : Except JourneyError Store) : Store := match e with
    | .ok s' => s'
    | .error _ => s
  match op with
  | .create id => settle (s.create id)
  | .addStep id journeyId input now => settle (s.addStep id journeyId input now)
  | .dispatchStep stepId deadlineAt now => settle (s.dispatchStep stepId deadlineAt now)
  | .runStep stepId deadlineAt now => settle (s.runStep stepId deadlineAt now)
  | .readyPendingDependents journeyId now => s.readyPendingDependents journeyId now
  | .completeStep stepId result now => settle (s.completeStep stepId result now)
  | .completeJourneyIfReady journeyId => s.completeJourneyIfReady journeyId
  | .failStep stepId error now => settle (s.failStep stepId error now)
  | .blockStep stepId reason now => settle (s.blockStep stepId reason now)
  | .claimDueSteps order now leaseMs limit => (s.claimDueSteps order now leaseMs limit).2

/-- A call that throws leaves the store as it was. -/
theorem settled {P : Store → Prop} {s : Store} (h : P s) (e : Except JourneyError Store) :
    (∀ s', e = .ok s' → P s') → P (match e with
      | .ok s' => s'
      | .error _ => s) := by
  intro hok
  cases e with
  | ok s' => exact hok s' rfl
  | error e => exact h

def runOps (ops : List JourneyOp) : Store := ops.foldl (fun s op => op.after s) {}

end Zenod.Journey
