/-
The executor's queue (`executionQueue.ts`): tickets, the transitions of their
states, and the calls that drive them. A call is cut where it waits: for the
persisted ticket, for a report, for the runner or for the shipped outcome. The
seams may answer or fail in any order, and callers come in between.
-/
import Zenod.Lib.Interleave
import Zenod.Lib.Table
import Zenod.Lib.Text
import Mathlib.Data.List.Sort

namespace Zenod.Execution

open Keyed Text

inductive ExecState | queued | running | needsReview | approved | done | blocked | failed
deriving DecidableEq, Repr

inductive ExecutionEffort | low | medium | high | max
deriving DecidableEq

structure DeliverableManifest where
  repo : Option Text := none
  issue : Option Int := none
  prUrl : Option Text := none
  branch : Option Text := none
  headSha : Option Text := none
  merged : Option Bool := none
  paths : Option (List Text) := none
  handoffExcerpt : Option Text := none
deriving DecidableEq

structure ExecutionTicket where
  executionId : Text
  target : Text
  context : Text
  effort : Option ExecutionEffort := none
  state : ExecState
  evidenceUrl : Option Text := none
  note : Option Text := none
  finalContent : Option Text := none
  outward : Option Bool := none
  notifyOnStart : Option Bool := none
  deliverable : Option DeliverableManifest := none
  startedAt : Option Int := none
  phase : Option Text := none
  progressNote : Option Text := none
  recentEvents : Option (List Text) := none
  transcriptUrl : Option Text := none
  updatedAt : Int
deriving DecidableEq

structure ExecutionEvent where
  executionId : Text
  state : ExecState
  evidenceUrl : Option Text := none
  note : Option Text := none
  deliverable : Option DeliverableManifest := none
deriving DecidableEq

/-- Legal transitions, keyed by from-state. -/
def transitions : ExecState → List ExecState
  | .queued => [.running]
  | .running => [.needsReview, .done, .blocked, .failed]
  | .needsReview => [.approved, .failed]
  | .approved => [.done, .failed]
  | .blocked => [.queued, .failed]
  | .done => []
  | .failed => []

def restartInterruptedNote : Text := "interrupted by a server restart".toList

def ExecutionTicket.isRestartInterruptedBlock (t : ExecutionTicket) : Bool :=
  t.state = .blocked && t.note = some restartInterruptedNote

instance : Keyed ExecutionTicket where
  clash a b := a.executionId == b.executionId
  clash_symm _ _ := BEq.comm

/-- What the queue has done: a ticket entered a state, and what it asked of its seams. -/
inductive Event
  | entered (id : Text) (state : ExecState)
  | reported (event : ExecutionEvent)
  | launched (id : Text)
  /-- `ship` was called. -/
  | shipping (id : Text)
  /-- `ship` resolved. -/
  | shipped (id url : Text)
  /-- `fail` was called for a ticket that is not done or failed. -/
  | failing (id : Text)
deriving DecidableEq

structure Queue where
  tickets : Table ExecutionTicket := .empty
  log : List Event := []

/-- What a call waits for, and what it does then. `depth` is the number of pumps that wait for this one. -/
inductive Frame
  | enqueue
  | record
  /-- The loop of a pump, with a ticket started, its start reported, or its runner launched. -/
  | start (id : Text) (depth : Nat)
  | reportStart (id : Text) (depth : Nat)
  | launch (id : Text) (depth : Nat)
  /-- A pump that waits for a pump of its own. -/
  | pump (depth : Nat)
  | outcome (id : Text) (state : ExecState)
  | blocked (id : Text) (note : Text)
  /-- A report, with a pump behind it. -/
  | reportThenPump (depth : Nat)
  | approve (id : Text)
  | ship (id : Text)
  | complete (id url : Text)
  | reportDone
  | unblock
  | fail (id : Text) (note : Option Text) (depth : Nat)
deriving DecidableEq

abbrev Segment := Queue × Option Frame

namespace Queue

def ticket? (q : Queue) (id : Text) : Option ExecutionTicket := q.tickets.rows.find? (·.executionId = id)

/-- The ticket in the place of the one with its id. -/
def replace (tickets : Table ExecutionTicket) (t : ExecutionTicket) : Table ExecutionTicket :=
  tickets.update (fun r => r.executionId = t.executionId) (fun r => { t with executionId := r.executionId }) fun _ _ => rfl

def put (q : Queue) (t : ExecutionTicket) : Queue := { q with tickets := replace q.tickets t }

def record (q : Queue) (e : Event) : Queue := { q with log := q.log ++ [e] }

/-- Tickets actively occupying a slot. -/
def runningCount (q : Queue) : Nat := q.tickets.count (·.state = .running)

/-! ## Transitions -/

/-- The ticket after a transition, none when it is illegal. -/
def moved (t : ExecutionTicket) (state : ExecState) (now : Int) : Option ExecutionTicket :=
  if (transitions t.state).contains state then
    some { t with
      state := state, updatedAt := now
      startedAt := if state = .running ∧ t.startedAt.all (· = 0) then some now else t.startedAt }
  else none

/-- `transition` and what the call waits for then; a call that throws is over. -/
def transition (t : ExecutionTicket) (state : ExecState) (now : Int) (next : Frame) (q : Queue) : Segment :=
  match moved t state now with
  | none => (q, none)
  | some t' => ((q.put t').record (.entered t.executionId state), some next)

/-! ## The pump -/

/-- A pump is over: the one that waits for it goes on. -/
def pumped (depth : Nat) (q : Queue) : Segment := (q, if depth = 0 then none else some (.pump (depth - 1)))

/-- The queued ticket that comes first. -/
def nextQueued (q : Queue) : Option ExecutionTicket :=
  ((q.tickets.rows.filter (·.state = .queued)).insertionSort fun a b => a.updatedAt ≤ b.updatedAt).head?

variable (concurrency : Nat)

/-- The loop of `pump`, up to the ticket it starts. -/
def pump (depth : Nat) (now : Int) (q : Queue) : Segment :=
  if q.runningCount < concurrency then
    match q.nextQueued with
    | none => pumped depth q
    | some next => transition next .running now (.start next.executionId depth) q
  else pumped depth q

/-- `fail`, up to the persisted ticket. -/
def fail (id : Text) (note : Option Text) (depth : Nat) (now : Int) (q : Queue) : Segment :=
  match q.ticket? id with
  | none => (q, none)
  | some t =>
    if t.state = .done ∨ t.state = .failed then pumped depth q
    else
      let t := { t with note := note.or t.note }
      transition t .failed now (.fail id note depth) ((q.record (.failing id)).put t)

/-! ## Calls -/

end Queue

structure EnqueueInput where
  executionId : Text
  target : Text
  context : Text
  effort : Option ExecutionEffort := none
  notifyOnStart : Option Bool := none

structure OutcomeInput where
  executionId : Text
  outward : Bool
  evidenceUrl : Option Text := none
  note : Option Text := none
  deliverable : Option DeliverableManifest := none

structure ProgressInput where
  executionId : Text
  phase : Option Text := none
  progressNote : Option Text := none
  recentEvents : Option (List Text) := none
  transcriptUrl : Option Text := none

inductive Request
  | enqueue (input : EnqueueInput)
  | reportOutcome (input : OutcomeInput)
  | recordProgress (input : ProgressInput)
  | recordTranscriptUrl (executionId transcriptUrl : Text)
  | reportBlocked (executionId note : Text)
  | approve (executionId : Text) (finalContent : Option Text)
  | unblock (executionId : Text) (guidance : Option Text)
  | resume
  | fail (executionId : Text) (note : Option Text)

/-- A call, and what the clock says when it is made. -/
structure Call where
  request : Request
  now : Int

/-- The answer of a seam, a URL if it shipped, or the message it failed with. -/
structure Reply where
  result : Except Text Text
  now : Int

namespace Queue

variable (concurrency : Nat)

def enqueue (input : EnqueueInput) (now : Int) (q : Queue) : Segment :=
  match q.tickets.insert? {
      executionId := input.executionId, target := input.target, context := input.context, effort := input.effort
      state := .queued, notifyOnStart := input.notifyOnStart.filter (· = false), updatedAt := now } with
  | none => (q, none)
  | some tickets => ({ q with tickets := tickets }, some .enqueue)

def reportOutcome (input : OutcomeInput) (now : Int) (q : Queue) : Segment :=
  match q.ticket? input.executionId with
  | none => (q, none)
  | some t =>
    let t := if t.isRestartInterruptedBlock then { t with state := .running, note := none } else t
    if t.state ≠ .running then (q, none)
    else
      let t := { t with
        outward := some input.outward, evidenceUrl := input.evidenceUrl.or t.evidenceUrl, note := input.note.or t.note
        deliverable := input.deliverable.or t.deliverable }
      let state : ExecState := if input.outward then .needsReview else .done
      transition t state now (.outcome t.executionId state) (q.put t)

def recordProgress (input : ProgressInput) (now : Int) (q : Queue) : Segment :=
  match q.ticket? input.executionId with
  | none => (q, none)
  | some t =>
    if t.state ≠ .running then (q, none)
    else
      (q.put { t with
        phase := input.phase.or t.phase, progressNote := input.progressNote.or t.progressNote
        recentEvents := input.recentEvents.or t.recentEvents, transcriptUrl := input.transcriptUrl.or t.transcriptUrl
        updatedAt := now }, some .record)

def recordTranscriptUrl (executionId transcriptUrl : Text) (now : Int) (q : Queue) : Segment :=
  match q.ticket? executionId with
  | none => (q, none)
  | some t => (q.put { t with transcriptUrl := some transcriptUrl, updatedAt := now }, some .record)

def reportBlocked (executionId note : Text) (now : Int) (q : Queue) : Segment :=
  match q.ticket? executionId with
  | none => (q, none)
  | some t =>
    if t.state ≠ .running then (q, none)
    else
      let t := { t with note := some note }
      transition t .blocked now (.blocked t.executionId note) (q.put t)

def approve (executionId : Text) (finalContent : Option Text) (now : Int) (q : Queue) : Segment :=
  match q.ticket? executionId with
  | none => (q, none)
  | some t =>
    if t.state = .done ∨ t.state = .approved then (q, none)
    else if t.state ≠ .needsReview then (q, none)
    else
      let t := { t with finalContent := finalContent.or t.finalContent }
      transition t .approved now (.approve t.executionId) (q.put t)

def unblock (executionId : Text) (guidance : Option Text) (now : Int) (q : Queue) : Segment :=
  match q.ticket? executionId with
  | none => (q, none)
  | some t =>
    if t.state ≠ .blocked then (q, none)
    else
      let t := match guidance.filter (· ≠ []) with
        | some guidance => { t with context := t.context ++ "\n\n[unblock guidance] ".toList ++ guidance }
        | none => t
      transition t .queued now .unblock (q.put t)

/-- The first segment of a call. -/
def start (c : Call) (q : Queue) : Segment :=
  match c.request with
  | .enqueue input => q.enqueue input c.now
  | .reportOutcome input => q.reportOutcome input c.now
  | .recordProgress input => q.recordProgress input c.now
  | .recordTranscriptUrl id url => q.recordTranscriptUrl id url c.now
  | .reportBlocked id note => q.reportBlocked id note c.now
  | .approve id finalContent => q.approve id finalContent c.now
  | .unblock id guidance => q.unblock id guidance c.now
  | .resume => q.pump concurrency 0 c.now
  | .fail id note => q.fail id note 0 c.now

/-! ## Behind the seams -/

/-- A seam has answered. -/
def resolved (f : Frame) (value : Text) (now : Int) (q : Queue) : Segment :=
  match f with
  | .enqueue => q.pump concurrency 0 now
  | .record => (q, none)
  | .start id depth => (q.record (.reported { executionId := id, state := .running }), some (.reportStart id depth))
  | .reportStart id depth => (q.record (.launched id), some (.launch id depth))
  | .launch _ depth => q.pump concurrency depth now
  | .pump depth => q.pump concurrency depth now
  | .outcome id state =>
    match q.ticket? id with
    | none => (q, none)
    | some t => (q.record (.reported {
        executionId := id, state := state, evidenceUrl := t.evidenceUrl, note := t.note, deliverable := t.deliverable }),
      some (.reportThenPump 0))
  | .blocked id note =>
    (q.record (.reported { executionId := id, state := .blocked, note := some note }), some (.reportThenPump 0))
  | .reportThenPump depth => q.pump concurrency depth now
  | .approve id => (q.record (.shipping id), some (.ship id))
  | .ship id =>
    match q.ticket? id with
    | none => (q, none)
    | some t =>
      let t := { t with evidenceUrl := some value }
      transition t .done now (.complete id value) ((q.record (.shipped id value)).put t)
  | .complete id url =>
    (q.record (.reported { executionId := id, state := .done, evidenceUrl := some url }), some .reportDone)
  | .reportDone => (q, none)
  | .unblock => q.pump concurrency 0 now
  | .fail id note depth =>
    (q.record (.reported { executionId := id, state := .failed, note := note }), some (.reportThenPump depth))

/-- A seam has failed: only a launch and a shipment are caught. -/
def rejected (f : Frame) (message : Text) (now : Int) (q : Queue) : Segment :=
  match f with
  | .launch id depth => q.fail id (some ("launch failed: ".toList ++ message)) (depth + 1) now
  | .ship id => q.fail id (some ("ship failed: ".toList ++ message)) 0 now
  | _ => (q, none)

def resume (f : Frame) (r : Reply) (q : Queue) : Segment :=
  match r.result with
  | .ok value => q.resolved concurrency f value r.now
  | .error message => q.rejected f message r.now

/-- The calls of a queue. -/
def calls : Interleaving Queue Call Frame Reply where
  start := start concurrency
  resume := resume concurrency

/-! ## Boot -/

/-- `tickets.set`: the last one of an id, in the first one's place. -/
def restore (tickets : Table ExecutionTicket) (t : ExecutionTicket) : Table ExecutionTicket :=
  (tickets.insert? t).getD (replace tickets t)

def boot (initialTickets : List ExecutionTicket) : Queue := { tickets := initialTickets.foldl restore .empty }

end Queue

end Zenod.Execution
