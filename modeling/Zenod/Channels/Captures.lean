/-
Durable channel captures (`PhylaxCaptureJournal` and the capture paths of
`PhylaxChannelsOrgan` in `server/phylaxChannels.ts`), for one tenant, channel
and provider message: every statement of the journal is about one such key.

Calls of `receive`, background polls and recoveries are actors; each goes on
from one await to the next, and any other may run in between. The process may
die at any point, and what it had in memory with it.

The downstream answers the idempotency key of the message with one ticket, and
the ticket has one terminal result.
-/
import Zenod.Channels.Receipt

namespace Zenod.Channels

open Text

/-! ## The journal -/

/-- A row of `phylax_capture_jobs`. -/
structure PhylaxCaptureJob where
  sender : Text
  chatId : Text
  conversationKey : Text
  tool : Text
  jobId : Text
  state : CaptureState := .polling
  receiptText : Option Text := none
  evidenceRef : Option Text := none
  deliveredAt : Option Nat := none
  deliveryCompletedAt : Option Nat := none
deriving DecidableEq

/-- What a message asks to be accepted. -/
structure Request where
  sender : Text
  chatId : Text
  conversationKey : Text
  tool : Text
  handoff : Handoff
deriving DecidableEq

/-- `receiptText`, with an empty one as none. -/
def PhylaxCaptureJob.shownText (job : PhylaxCaptureJob) : Option Text := job.receiptText.filter (· ≠ [])

def PhylaxCaptureJob.terminal (job : PhylaxCaptureJob) : Bool := job.state == .done || job.state == .error

abbrev Journal := Option PhylaxCaptureJob

namespace Journal

/-- INSERT, or the UPDATE of its ON CONFLICT: a job that is done stays done. -/
def accepted (row : Journal) (r : Request) (jobId : Text) : PhylaxCaptureJob :=
  match row with
  | none => { sender := r.sender, chatId := r.chatId, conversationKey := r.conversationKey, tool := r.tool, jobId := jobId }
  | some job =>
    { job with
      sender := r.sender, chatId := r.chatId, conversationKey := r.conversationKey, tool := r.tool, jobId := jobId
      state := if job.state = .done then .done else .polling }

/-- `terminal`: whatever state the row is in. -/
def terminal (row : Journal) (receipt : CaptureReceipt) : Journal :=
  row.map fun job =>
    { job with state := receipt.state, receiptText := some receipt.text, evidenceRef := receipt.evidenceRef }

/-- `claimDelivery`, with whether a row was changed. -/
def claimDelivery (row : Journal) (now : Nat) : Journal × Bool :=
  match row with
  | some job =>
    if job.deliveredAt = none ∧ job.deliveryCompletedAt = none then (some { job with deliveredAt := some now }, true)
    else (some job, false)
  | none => (none, false)

def releaseDeliveryClaim (row : Journal) : Journal :=
  row.map fun job => if job.deliveryCompletedAt = none then { job with deliveredAt := none } else job

/-- `recordReceiptDelivery`, with what it returns. -/
def recordReceiptDelivery (row : Journal) (providerReceiptMessageId : Text) (now : Nat) : Journal × Bool :=
  match row with
  | some job =>
    if job.terminal = true ∧ job.shownText ≠ none ∧ trim providerReceiptMessageId ≠ [] then
      (some { job with deliveryCompletedAt := job.deliveryCompletedAt.or (some now) }, true)
    else (some job, false)
  | none => (none, false)

/-- The row is one of `unindexedTerminalReceipts`. -/
def undelivered (row : Journal) : Option PhylaxCaptureJob :=
  row.filter fun job => job.terminal ∧ job.receiptText ≠ none ∧ job.deliveryCompletedAt = none

end Journal

/-! ## Actors -/

inductive Actor
  /-- A call of `receive`, before it looks into the journal. -/
  | arriving (r : Request)
  /-- It awaits the downstream's ticket. -/
  | calling (r : Request)
  /-- `pollCapture`, in the foreground or in the background. -/
  | polling (job : PhylaxCaptureJob) (handoff : Handoff) (foreground : Bool)
  /-- `receive` has returned a pending reply, and its `afterReply` is still to be called. -/
  | replied (job : PhylaxCaptureJob) (handoff : Handoff)
  /-- A background poll awaits its route. -/
  | resolving (job : PhylaxCaptureJob) (handoff : Handoff)
  /-- A background poll has its receipt, and goes on to deliver it. -/
  | finishing (text : Text)
  /-- The provider is delivering the receipt. -/
  | delivering
  /-- `resumePendingCaptures` awaits `terminalReceiptRecovery`, if it has asked it. -/
  | recovering (asked : Bool)
  /-- It goes on to the jobs that are left. -/
  | resuming
deriving DecidableEq

/-- What is observed, in its order. -/
inductive Observed
  /-- The downstream is called to store, ingest or chat. -/
  | called
  | accepted
  /-- `receive` has returned the receipt of the job that is done. -/
  | answered
  /-- The background delivery is called. -/
  | delivered
  /-- Such a call has ended in a usage pause. -/
  | paused
  /-- A delivery of the receipt has been recorded. -/
  | recorded
deriving DecidableEq

structure World where
  row : Journal := none
  /-- Whether the key is in `backgroundPolls`. -/
  background : Bool := false
  actors : List Actor := []
  history : List Observed := []

inductive PollAnswer | later | final | deadline
deriving DecidableEq

inductive DeliveryOutcome
  | sent (messageId : Text)
  | paused
  | failed
deriving DecidableEq

/-- What an actor meets at its step; `fails` is a failure of what it awaits. -/
structure Moment where
  now : Nat := 0
  fails : Bool := false
  poll : PollAnswer := .later
  delivery : DeliveryOutcome := .failed
  recovered : Option Text := none

/-- The downstream: the ticket of the message, and the ticket's terminal result. -/
structure Downstream where
  unicode : Unicode
  ticket : Text
  result : PeerToolResult

namespace World

def observe (s : World) (o : Observed) : World := { s with history := s.history ++ [o] }

def goOn (s : World) (actor : Actor) : World := { s with actors := s.actors ++ [actor] }

/-- A background poll or delivery is over, and leaves `backgroundPolls`. -/
def leave (s : World) : World := { s with background := false }

def record (s : World) (messageId : Text) (now : Nat) : World :=
  match s.row.recordReceiptDelivery messageId now with
  | (row, true) => ({ s with row := row } : World).observe .recorded
  | (row, false) => { s with row := row }

/-- `deliverTerminalReceipt` up to the provider. -/
def deliverTerminalReceipt (s : World) (now : Nat) : World :=
  match s.row.claimDelivery now with
  | (row, true) => (({ s with row := row } : World).observe .delivered).goOn .delivering
  | (row, false) => ({ s with row := row } : World).leave

/-- `startBackgroundPoll`. -/
def startBackgroundPoll (s : World) (job : PhylaxCaptureJob) (handoff : Handoff) : World :=
  if s.background then s else ({ s with background := true } : World).goOn (.resolving job handoff)

/-- `resumePendingCaptures` behind the recovery. -/
def resume (s : World) (now : Nat) : World :=
  match s.row with
  | none => s
  | some job =>
    if job.state = .polling then s.startBackgroundPoll job { sender := job.sender }
    else if (s.row.undelivered.any fun job => job.deliveredAt = none ∧ job.shownText ≠ none) ∧ s.background = false then
      ({ s with background := true } : World).deliverTerminalReceipt now
    else s

/-- A poll has the terminal result. -/
def finishPoll (s : World) (receipt : CaptureReceipt) (unicode : Unicode) (foreground fails : Bool) : World :=
  let s := { s with row := s.row.terminal receipt }
  if foreground then
    -- A failed job is answered with an error, and so is a reply without text.
    if receipt.state = .done ∧ sanitizePhylaxCustomerReply unicode receipt.text ≠ [] ∧ fails = false then s.observe .answered
    else s
  else s.goOn (.finishing receipt.text)

/-- `receive` looks into the journal. -/
def look (s : World) (r : Request) (unicode : Unicode) (fails : Bool) : World :=
  if fails then s
  else
    match s.row with
    | none => (s.observe .called).goOn (.calling r)
    | some job =>
      match job.state, job.shownText with
      | .done, some text => if sanitizePhylaxCustomerReply unicode text ≠ [] then s.observe .answered else s
      | .error, some _ => s
      | _, _ => s.goOn (.polling job r.handoff true)

/-- The next step of an actor that is taken out of those at work. -/
def step (d : Downstream) (s : World) (m : Moment) : Actor → World
  | .arriving r => s.look r d.unicode m.fails
  | .calling r =>
    if m.fails then s
    else
      let job := s.row.accepted r d.ticket
      (({ s with row := some job } : World).observe .accepted).goOn (.polling job r.handoff true)
  | .polling job handoff foreground =>
    match m.poll with
    | .later => s.goOn (.polling job handoff foreground)
    | .deadline =>
      if foreground then (if m.fails then s else s.goOn (.replied job handoff)) else s.goOn (.polling job handoff foreground)
    | .final =>
      match terminalCaptureReceipt d.unicode d.result job.jobId job.tool handoff with
      | none => s.goOn (.polling job handoff foreground)
      | some receipt => s.finishPoll receipt d.unicode foreground m.fails
  | .replied job handoff => s.startBackgroundPoll job handoff
  | .resolving job handoff => if m.fails then s.leave else s.goOn (.polling job handoff false)
  | .finishing _ => s.deliverTerminalReceipt m.now
  | .delivering =>
    match m.delivery with
    | .sent messageId => (s.record messageId m.now).leave
    | .paused => (({ s with row := s.row.releaseDeliveryClaim } : World).observe .paused).leave
    | .failed => s.leave
  | .recovering asked =>
    match m.recovered with
    | some messageId => if asked then (s.record messageId m.now).goOn .resuming else s.goOn .resuming
    | none => s.goOn .resuming
  | .resuming => s.resume m.now

end World

/-! ## Runs -/

inductive Op
  | receive (r : Request)
  | resumePendingCaptures
  /-- `recordCaptureReceiptDelivery`. -/
  | record (messageId : Text) (now : Nat)
  /-- The process dies, and another is started. -/
  | restart
  | go (i : Nat) (m : Moment)

variable (d : Downstream)

def exec (s : World) : Op → World
  | .receive r => s.goOn (.arriving r)
  | .resumePendingCaptures => s.goOn (.recovering s.row.undelivered.isSome)
  | .record messageId now => s.record messageId now
  | .restart => { s with background := false, actors := [] }
  | .go i m =>
    match s.actors[i]? with
    | none => s
    | some actor => ({ s with actors := s.actors.eraseIdx i } : World).step d m actor

def run (ops : List Op) : World := ops.foldl (exec d) {}

end Zenod.Channels
