/-
The producer of capture tickets (`ringCaptureTicketProducer.ts`): an outbox of
tickets and the memory authorities of jobs, the calls that fill them, and the
passes that offer the finished tickets for delivery. A pass waits for each
answer, and calls come in between; the statements of a call stand even if it
throws.
-/
import Zenod.Lib.Table
import Zenod.Lib.Text

namespace Zenod.Capture

open Keyed Text

inductive Surface | whatsapp | telegram
deriving DecidableEq

def Surface.text : Surface → Text
  | .whatsapp => "whatsapp".toList
  | .telegram => "telegram".toList

inductive CaptureMemoryTool | storeMemory | ingestMemory
deriving DecidableEq

/-- `isCaptureMemoryTool`. -/
def captureMemoryTool? (tool : Text) : Option CaptureMemoryTool :=
  if tool = "store_memory".toList then some .storeMemory
  else if tool = "ingest_memory".toList then some .ingestMemory
  else none

/-- What a ticket is found by. -/
structure TicketKey where
  tenantId : Text
  surface : Surface
  conversationKey : Text
  providerMessageId : Text
deriving DecidableEq

structure Authority where
  memoryAuthorityId : Text
  captureTool : CaptureMemoryTool
deriving DecidableEq

structure CaptureTicketDelivery where
  key : TicketKey
  jobId : Text
  authority : Authority
deriving DecidableEq

/-- A row of `ring_capture_ticket_outbox`; a ticket of an earlier version has no authority or no tool. -/
structure TicketRow where
  key : TicketKey
  jobId : Text
  memoryAuthorityId : Option Text := none
  captureTool : Option CaptureMemoryTool := none
  terminalAt : Option Int := none
  deliveredAt : Option Int := none
  lastError : Option Text := none
  createdAt : Int
  updatedAt : Int
deriving DecidableEq

instance : Keyed TicketRow where
  clash a b := a.key == b.key
  clash_symm _ _ := BEq.comm

def CaptureTicketDelivery.row (ticket : CaptureTicketDelivery) (now : Int) : TicketRow where
  key := ticket.key
  jobId := ticket.jobId
  memoryAuthorityId := some ticket.authority.memoryAuthorityId
  captureTool := some ticket.authority.captureTool
  createdAt := now
  updatedAt := now

/-- A row of `ring_capture_job_authorities`. -/
structure AuthorityRow where
  tenantId : Text
  jobId : Text
  authority : Authority
  createdAt : Int
deriving DecidableEq

instance : Keyed AuthorityRow where
  clash a b := (a.tenantId, a.jobId) == (b.tenantId, b.jobId)
  clash_symm _ _ := BEq.comm

inductive CaptureError | closed | invalidAuthority | changedAuthority | changedIdentity
deriving DecidableEq

def CaptureError.message : CaptureError → Text
  | .closed => "Ring capture ticket producer is closed".toList
  | .invalidAuthority => "capture memory authority binding is invalid".toList
  | .changedAuthority => "capture job authority changed for an existing tenant job".toList
  | .changedIdentity => "capture identity changed for an existing Ring ticket".toList

/-- `/^memory-authority-v1:[0-9a-f]{64}$/`. -/
def isMemoryAuthorityId (t : Text) : Bool :=
  let mark := "memory-authority-v1:".toList
  startsWith t mark && (t.drop mark.length).length = 64 &&
    (t.drop mark.length).all fun c => "0123456789abcdef".toList.contains c

/-- What `deliver` answers with, or fails with. -/
inductive Answer | recorded | duplicate | pending | failed (message : Text)
deriving DecidableEq

/-- A pass at work: a ticket is offered and the answer awaited, with others behind it; or all are through, and what comes
behind the pass is due. -/
inductive Pass
  | offering (ticket : CaptureTicketDelivery) (rest : List CaptureTicketDelivery)
  | ended
deriving DecidableEq

inductive Event
  | offered (ticket : CaptureTicketDelivery)
  | answered (ticket : CaptureTicketDelivery) (answer : Answer)
deriving DecidableEq

namespace TicketRow

/-- The ticket may be a row's: the same job, and nothing that is set is different. -/
def agrees (r : TicketRow) (ticket : CaptureTicketDelivery) : Bool :=
  r.jobId = ticket.jobId && r.memoryAuthorityId.all (· = ticket.authority.memoryAuthorityId) &&
    r.captureTool.all (· = ticket.authority.captureTool)

def isOf (r : TicketRow) (ticket : CaptureTicketDelivery) : Bool :=
  r.jobId = ticket.jobId && r.memoryAuthorityId = some ticket.authority.memoryAuthorityId &&
    r.captureTool = some ticket.authority.captureTool

/-- The row with what was not set. -/
def completed (r : TicketRow) (ticket : CaptureTicketDelivery) (now : Int) : TicketRow :=
  { r with
    memoryAuthorityId := r.memoryAuthorityId.or (some ticket.authority.memoryAuthorityId)
    captureTool := r.captureTool.or (some ticket.authority.captureTool)
    updatedAt := now }

/-- What the statement of `pending` sorts by. -/
def sortTexts (r : TicketRow) : List Text :=
  [r.key.tenantId, r.key.surface.text, r.key.conversationKey, r.key.providerMessageId]

def before (a b : TicketRow) : Prop :=
  a.createdAt < b.createdAt ∨ (a.createdAt = b.createdAt ∧ a.sortTexts ≤ b.sortTexts)

instance (a b : TicketRow) : Decidable (a.before b) :=
  inferInstanceAs (Decidable (a.createdAt < b.createdAt ∨ (a.createdAt = b.createdAt ∧ a.sortTexts ≤ b.sortTexts)))

/-- A row as it is offered: terminal, of known authority and not delivered. -/
def due (r : TicketRow) : Option CaptureTicketDelivery :=
  if r.deliveredAt.isNone && r.terminalAt.isSome then
    match r.memoryAuthorityId, r.captureTool with
    | some memoryAuthorityId, some captureTool => some ⟨r.key, r.jobId, ⟨memoryAuthorityId, captureTool⟩⟩
    | _, _ => none
  else none

end TicketRow

structure Producer where
  authorities : Table AuthorityRow := .empty
  outbox : Table TicketRow := .empty
  drainPromise : Option Pass := none
  wakeRequested : Bool := false
  closed : Bool := false
  /-- The offers and their answers so far. -/
  log : List Event := []
deriving DecidableEq

namespace Producer

variable (s : Producer)

def memoryJobAuthority (tenantId jobId : Text) : Option Authority :=
  (s.authorities.rows.find? fun r => r.tenantId = tenantId && r.jobId = jobId).map (·.authority)

def ticket? (key : TicketKey) : Option TicketRow := s.outbox.rows.find? (·.key = key)

/-! ## Binding and observing -/

/-- `bindMemoryJob`. -/
def bindMemoryJob (tenantId jobId : Text) (authority : Authority) (now : Int) : Except CaptureError Unit × Producer :=
  if s.closed then (.error .closed, s)
  else
    let bound : AuthorityRow :=
      ⟨trim tenantId, trim jobId, ⟨trim authority.memoryAuthorityId, authority.captureTool⟩, now⟩
    if bound.tenantId = [] ∨ bound.jobId = [] ∨ isMemoryAuthorityId bound.authority.memoryAuthorityId = false then
      (.error .invalidAuthority, s)
    else
      let stored := { s with authorities := (s.authorities.insert? bound).getD s.authorities }
      if stored.memoryJobAuthority bound.tenantId bound.jobId = some bound.authority then (.ok (), stored)
      else (.error .changedAuthority, stored)

/-- The insert of a ticket, which completes the row that is there. -/
def upsert (ticket : CaptureTicketDelivery) (now : Int) : Producer :=
  match s.outbox.insert? (ticket.row now) with
  | some outbox => { s with outbox := outbox }
  | none =>
    { s with
      outbox := s.outbox.update (fun r => r.key = ticket.key && r.agrees ticket)
        (fun r => r.completed ticket now) fun _ _ => rfl }

/-- The readings of the clock in a call, where it binds, observes and marks. -/
structure Times where
  bound : Int := 0
  observed : Int := 0
  marked : Int := 0
deriving DecidableEq

def observe (ticket : CaptureTicketDelivery) (times : Times) : Except CaptureError Unit × Producer :=
  if s.closed then (.error .closed, s)
  else
    match s.bindMemoryJob ticket.key.tenantId ticket.jobId ticket.authority times.bound with
    | (.error e, s) => (.error e, s)
    | (.ok (), s) =>
      let stored := s.upsert ticket times.observed
      if (stored.ticket? ticket.key).any fun r => r.isOf ticket then (.ok (), stored)
      else (.error .changedIdentity, stored)

/-! ## Passes -/

def pending : List CaptureTicketDelivery := (s.outbox.rows.insertionSort TicketRow.before).filterMap TicketRow.due

/-- The loop of `drain` at its head. -/
def offer : List CaptureTicketDelivery → Producer
  | [] => { s with drainPromise := some .ended }
  | ticket :: rest =>
    if s.closed then { s with drainPromise := some .ended }
    else { s with drainPromise := some (.offering ticket rest), log := s.log ++ [.offered ticket] }

/-- `requestDrain`; a pass starts at once, if there is none. -/
def requestDrain : Producer :=
  if s.closed then s
  else
    match s.drainPromise with
    | some _ => { s with wakeRequested := true }
    | none => { s with wakeRequested := false }.offer s.pending

/-- An update of the ticket while it is not delivered. -/
def record (key : TicketKey) (f : TicketRow → TicketRow) (hf : ∀ r, (f r).key = r.key) : Producer :=
  { s with
    outbox := s.outbox.update (fun r => r.key = key && r.deliveredAt.isNone) f fun r r' => congrArg (· == r'.key) (hf r) }

/-- What `drain` does with an answer. -/
def recordAnswer (key : TicketKey) (deliveredAt updatedAt : Int) : Answer → Producer
  | .pending => s
  | .recorded | .duplicate =>
    s.record key (fun r => { r with deliveredAt := some deliveredAt, lastError := none, updatedAt := updatedAt }) fun _ => rfl
  | .failed message =>
    s.record key (fun r => { r with lastError := some (takeUnits 500 message), updatedAt := updatedAt }) fun _ => rfl

/-- `deliver` answers; nobody waits for the answer of a pass before a restart. -/
def answer (answer : Answer) (deliveredAt updatedAt : Int) : Producer :=
  match s.drainPromise with
  | some (.offering ticket rest) =>
    ({ s with log := s.log ++ [Event.answered ticket answer] }.recordAnswer ticket.key deliveredAt updatedAt answer).offer rest
  | _ => s

/-- What comes behind a pass: the next one, if it was requested. -/
def settle : Producer :=
  match s.drainPromise with
  | some .ended =>
    let idle := { s with drainPromise := none }
    if s.wakeRequested then idle.requestDrain else idle
  | _ => s

/-! ## Calls -/

/-- The update of `markTerminal`. -/
def terminate (key : TicketKey) (now : Int) : Producer :=
  { s with
    outbox := s.outbox.update (·.key = key)
      (fun r => { r with terminalAt := r.terminalAt.or (some now), updatedAt := now }) fun _ _ => rfl }

def markTerminal (key : TicketKey) (now : Int) : Producer := (s.terminate key now).requestDrain

def observeJob (key : TicketKey) (jobId : Text) (terminal : Bool) (times : Times) : Except CaptureError Bool × Producer :=
  match s.memoryJobAuthority key.tenantId jobId with
  | none => (.ok false, s)
  | some authority =>
    match s.observe ⟨key, jobId, authority⟩ times with
    | (.error e, s) => (.error e, s)
    | (.ok (), s) => (.ok true, if terminal then s.markTerminal key times.marked else s)

def resume : Producer := if s.closed then s else s.requestDrain

end Producer

inductive JournalState | polling | done
deriving DecidableEq

/-- A row of the capture journal that is polled or done. -/
structure JournalRow where
  key : TicketKey
  jobId : Text
  tool : Text
  state : JournalState
deriving DecidableEq

/-- The rows as the journal's statement returns them; a message has one row. -/
structure Journal where
  rows : List JournalRow
  distinct : rows.Pairwise fun a b => a.key ≠ b.key

namespace Producer

variable (s : Producer)

/-- The ticket of a row, if its tool is the one of its job's authority. -/
def journalTicket (row : JournalRow) : Option CaptureTicketDelivery :=
  match captureMemoryTool? row.tool, s.memoryJobAuthority row.key.tenantId row.jobId with
  | some tool, some authority => if authority.captureTool = tool then some ⟨row.key, row.jobId, authority⟩ else none
  | _, _ => none

/-- The loop of `recoverFromCaptureJournal`, which ends when a row throws. -/
def recoverRows (times : Nat → Times) : List JournalRow → Producer → Producer
  | [], s => s
  | row :: rows, s =>
    match s.journalTicket row with
    | none => recoverRows (fun i => times (i + 1)) rows s
    | some ticket =>
      match s.observe ticket (times 0) with
      | (.error _, s) => s
      | (.ok (), s) =>
        recoverRows (fun i => times (i + 1)) rows (if row.state = .done then s.markTerminal row.key (times 0).marked else s)

/-- `recoverFromCaptureJournal`; a journal that cannot be read is none. -/
def recoverFromCaptureJournal (journal : Option Journal) (times : Nat → Times) : Except CaptureError Unit × Producer :=
  if s.closed then (.error .closed, s)
  else
    match journal with
    | none => (.ok (), s)
    | some journal => (.ok (), recoverRows times journal.rows s)

/-- The process ends, and a new one opens the database. -/
def restart : Producer := { s with drainPromise := none, wakeRequested := false, closed := false }

end Producer

/-! ## Runs -/

open Producer in
inductive Move
  | bindMemoryJob (tenantId jobId : Text) (authority : Authority) (now : Int)
  | observe (ticket : CaptureTicketDelivery) (times : Times)
  | observeJob (key : TicketKey) (jobId : Text) (terminal : Bool) (times : Times)
  | resume
  | recover (journal : Option Journal) (times : Nat → Times)
  | answer (answer : Answer) (deliveredAt updatedAt : Int)
  | settle
  | close
  | restart

def Producer.step (s : Producer) : Move → Producer
  | .bindMemoryJob tenantId jobId authority now => (s.bindMemoryJob tenantId jobId authority now).2
  | .observe ticket times => (s.observe ticket times).2
  | .observeJob key jobId terminal times => (s.observeJob key jobId terminal times).2
  | .resume => s.resume
  | .recover journal times => (s.recoverFromCaptureJournal journal times).2
  | .answer answer deliveredAt updatedAt => s.answer answer deliveredAt updatedAt
  | .settle => s.settle
  | .close => { s with closed := true }
  | .restart => s.restart

def Producer.run (s : Producer) (moves : List Move) : Producer := moves.foldl Producer.step s

end Zenod.Capture
