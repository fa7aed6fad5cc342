/-
The notification bus (`notificationBus.ts`) over its journal
(`notificationStore.ts`): every proactive message goes through `notify`, which
looks at the journal, hands the message to a sender it waits for, and writes
the outcome down.

The two queries for the latest sent row leave rows of one time in any order, so
their answers come with a call (`Legit`).
-/
import Zenod.Lib.Interleave
import Zenod.Lib.Table
import Zenod.Lib.Text

namespace Zenod.Notify

open Keyed Text

/-! ## Events -/

inductive NotificationSeverity | info | action | error
deriving DecidableEq

inductive NotificationStatus | sent | failed | suppressed
deriving DecidableEq

inductive Surface | whatsapp | telegram
deriving DecidableEq

structure NotificationEvent where
  eventType : Text
  text : Option Text := none
  surface : Option Text := none
  targetIssue : Option Text := none
  executionId : Option Text := none
  runId : Option Text := none
  severity : Option NotificationSeverity := none
  dedupeKey : Option Text := none
deriving DecidableEq

/-- A text that is there and not empty. -/
def truthy (t : Option Text) : Option Text := t.filter (· ≠ [])

def notificationDedupeKey (event : NotificationEvent) : Text :=
  match truthy event.dedupeKey with
  | some key => key
  | none =>
    let target := ((truthy event.targetIssue).or (truthy event.executionId)).getD "-".toList
    let run := (truthy event.runId).getD "-".toList
    target ++ "|".toList ++ run ++ "|".toList ++ event.eventType

def isCoalescible (event : NotificationEvent) : Bool :=
  (truthy event.dedupeKey).isSome || (truthy event.targetIssue).isSome || (truthy event.executionId).isSome ||
    (truthy event.runId).isSome

def endsWith (t suffix : Text) : Bool := suffix.isSuffixOf t

def eventStateRank (eventType : Text) : Nat :=
  if endsWith eventType ".terminal".toList || endsWith eventType ".done".toList then 3
  else if endsWith eventType ".blocked".toList || endsWith eventType ".failed".toList then 2
  else if endsWith eventType ".start".toList then 1
  else 0

def surfaceOf (event : NotificationEvent) : Surface :=
  if event.surface = some "telegram".toList then .telegram else .whatsapp

/-- The group whose states are ordered: an issue, and a run of it. -/
def groupOf (event : NotificationEvent) : Option (Text × Text) :=
  (truthy event.targetIssue).map fun target => (target, event.runId.getD "-".toList)

/-! ## The journal -/

structure NotificationRecord where
  id : Text
  eventType : Text
  surface : Surface
  targetIssue : Option Text
  executionId : Option Text
  runId : Option Text
  severity : Option NotificationSeverity
  dedupeKey : Option Text
  composedText : Text
  recipients : List Text
  status : NotificationStatus
  suppressedBy : Option Text
  createdAt : Int
deriving DecidableEq

instance : Keyed NotificationRecord where
  clash a b := a.id == b.id
  clash_symm _ _ := BEq.comm

/-- A row that `latestSentByDedupeKey` looks at. -/
def sentWithKey (key : Text) (r : NotificationRecord) : Bool := r.status = .sent && r.dedupeKey = some key

/-- A row that `latestSentForGroup` looks at. -/
def sentInGroup (group : Text × Text) (r : NotificationRecord) : Bool :=
  r.status = .sent && r.targetIssue = some group.1 && r.runId.getD "-".toList = group.2

scoped instance decidableForallSome {α : Type} (o : Option α) (p : α → Prop) [∀ a, Decidable (p a)] :
    Decidable (∀ a, o = some a → p a) :=
  inferInstanceAs (Decidable (∀ a ∈ o, p a))

/-- `ORDER BY created_at DESC LIMIT 1`: any row of the latest time. -/
def IsLatest (rows : List NotificationRecord) (p : NotificationRecord → Bool) (answer : Option NotificationRecord) : Prop :=
  (answer = none → ∀ r ∈ rows, p r = false) ∧
    ∀ r, answer = some r → r ∈ rows ∧ p r = true ∧ ∀ s ∈ rows, p s = true → s.createdAt ≤ r.createdAt

instance (rows : List NotificationRecord) (p : NotificationRecord → Bool) (answer : Option NotificationRecord) :
    Decidable (IsLatest rows p answer) := by
  unfold IsLatest
  infer_instance

/-! ## The bus -/

structure Windows where
  dedupeWindowMs : Int := 10 * 60 * 1000
  orderingWindowMs : Int := 30 * 60 * 1000

/-- A call of `notify`: its event, the clock, and what the queries answer. -/
structure Call where
  event : NotificationEvent
  now : Int
  byKey : Option NotificationRecord := none
  byGroup : Option NotificationRecord := none

/-- A notification that was handed to the sender; `handed` counts them. -/
structure Sending where
  id : Text
  event : NotificationEvent
  now : Int
  outText : Text
  handed : Nat
deriving DecidableEq

structure SendResult where
  sent : Nat
  recipients : List Text
deriving DecidableEq

/-- The journal and the counter of ids; and what has happened: the calls, their outcomes, the calls that threw, and the
notifications that reached somebody. -/
structure State where
  journal : Table NotificationRecord
  counter : Nat
  clock : Int
  calls : List NotificationEvent := []
  returned : List (NotificationEvent × Text × NotificationStatus) := []
  thrown : Nat := 0
  handings : Nat := 0
  delivered : List Sending := []

def nextCounter (counter : Nat) : Nat := (counter + 1) % 1000000

def notificationId (now : Int) (counter : Nat) : Text :=
  "ntf-".toList ++ (toString now).toList ++ "-".toList ++ (toString counter).toList

/-- What `notify` journals of an event. -/
def journalRow (id : Text) (event : NotificationEvent) (now : Int) (composedText : Text) (recipients : List Text)
    (status : NotificationStatus) (suppressedBy : Option Text) : NotificationRecord where
  id := id
  eventType := event.eventType
  surface := surfaceOf event
  targetIssue := event.targetIssue
  executionId := event.executionId
  runId := event.runId
  severity := event.severity
  dedupeKey := some (notificationDedupeKey event)
  composedText := composedText
  recipients := recipients
  status := status
  suppressedBy := suppressedBy
  createdAt := now

/-- `store.record`, and the return; the insert of an id that is there throws. -/
def State.record (s : State) (event : NotificationEvent) (row : NotificationRecord) : State :=
  match s.journal.insert? row with
  | some journal => { s with journal := journal, returned := s.returned ++ [(event, row.id, row.status)] }
  | none => { s with thrown := s.thrown + 1 }

variable (windows : Windows)

/-- The row that the event repeats. -/
def repeats (c : Call) : Option NotificationRecord :=
  if isCoalescible c.event then c.byKey.filter fun prior => c.now - prior.createdAt ≤ windows.dedupeWindowMs else none

/-- The recent row of the event's group, when the event has a rank. -/
def recent (c : Call) : Option NotificationRecord :=
  if (truthy c.event.targetIssue).isSome ∧ 0 < eventStateRank c.event.eventType then
    c.byGroup.filter fun prior => c.now - prior.createdAt ≤ windows.orderingWindowMs
  else none

/-- `notify` up to the send. -/
def notify (c : Call) (s : State) : State × Option Sending :=
  let counter := nextCounter s.counter
  let id := notificationId c.now counter
  let s := { s with counter := counter, clock := c.now, calls := s.calls ++ [c.event] }
  let composedText := trim (c.event.text.getD [])
  if composedText = [] then (s.record c.event (journalRow id c.event c.now [] [] .suppressed none), none)
  else
    match repeats windows c with
    | some prior => (s.record c.event (journalRow id c.event c.now composedText [] .suppressed (some prior.id)), none)
    | none =>
      let rank := eventStateRank c.event.eventType
      match (recent windows c).filter fun prior => rank < eventStateRank prior.eventType with
      | some prior => (s.record c.event (journalRow id c.event c.now composedText [] .suppressed (some prior.id)), none)
      | none =>
        let priorRank := (recent windows c).elim 0 fun prior => eventStateRank prior.eventType
        let outText :=
          if priorRank = 2 ∧ rank = 3 then "↩️ Previously blocked — now resolved.\n".toList ++ composedText else composedText
        ({ s with handings := s.handings + 1 },
          some { id := id, event := c.event, now := c.now, outText := outText, handed := s.handings })

/-- `notify` behind the send, which may have failed. -/
def settle (f : Sending) (result : Option SendResult) (s : State) : State × Option Sending :=
  let answer := result.getD { sent := 0, recipients := [] }
  if 0 < answer.sent then
    ({ s with delivered := s.delivered ++ [f] }.record f.event
      (journalRow f.id f.event f.now f.outText answer.recipients .sent none), none)
  else (s.record f.event (journalRow f.id f.event f.now f.outText answer.recipients .failed none), none)

def bus : Interleaving State Call Sending (Option SendResult) where
  start := notify windows
  resume := settle

abbrev Config := Interleaving.Config State Sending
abbrev Move := Interleaving.Move Call Sending (Option SendResult)

end Zenod.Notify
