/-
The voice worker (`phylaxPortedRuntime.ts`): one loop over the voice jobs of
all tenants, from one thing that it awaits to the next (`Runtime.work`), and
what may happen in between. What the meter and the awaited calls answer is
given to each step.
-/
import Zenod.Lib.Course
import Zenod.WhatsApp.VoiceStore

namespace Zenod.WhatsApp

open Keyed Text

/-! ## Receipts -/

structure TranscriptionFailure where
  code : Text
  reason : Option Text := none
  provider : Option Text := none
  httpStatus : Option Int := none
  providerCode : Option Text := none
  message : Text
deriving DecidableEq

structure TranscriptionReceipt where
  textTranscript : Option Text := none
  transcriptionFailed : Option TranscriptionFailure := none
  durationSeconds : Option Int := none
deriving DecidableEq

namespace TranscriptionReceipt

def isBlank (r : TranscriptionReceipt) : Bool := (r.textTranscript.map trim).getD [] = []

/-- The recording is too long to be transcribed. -/
def isDurationLimit (r : TranscriptionReceipt) : Bool := r.transcriptionFailed.any (·.code = "duration_limit".toList)

end TranscriptionReceipt

/-- What the worker reads and writes of a job beside its row: the JSON of a receipt, the column of the duration and the reply
for a failure (`safeVoiceTranscriptionFailure`). -/
structure VoiceLibrary where
  readReceipt : Text → TranscriptionReceipt
  writeReceipt : TranscriptionReceipt → Text
  durationSeconds : Text → Option Int
  failureReply : TranscriptionFailure → Text

def maxVoiceTranscriptionSeconds : Int := 2 * 60 * 60

def durationLimit (duration : Option Int) : TranscriptionReceipt where
  durationSeconds := duration
  transcriptionFailed := some {
    code := "duration_limit".toList, message := "audio exceeds Zenod's 2-hour transcription limit".toList }

/-- The failure of a receipt without a transcript. -/
def TranscriptionReceipt.failure (r : TranscriptionReceipt) : TranscriptionFailure :=
  r.transcriptionFailed.getD {
    code := "unavailable".toList, reason := some "unknown".toList, message := "transcription returned empty text".toList }

def TranscriptionFailure.detail (f : TranscriptionFailure) : VoiceFailureDetail where
  reason := some (f.reason.getD f.code)
  provider := f.provider
  httpStatus := f.httpStatus
  providerCode := f.providerCode
  message := some f.message

def emptyTranscriptNotice : Text := "⚠️ I could not process the persisted voice transcript because it was empty.".toList

def retryNotice : Text :=
  ("⚠️ Your voice note was transcribed, but Zenod has not returned a save receipt. " ++
    "The transcript is safely retained; retry after the connection is repaired cannot create a second memory.").toList

def voiceFailureNotice : Text := "⚠️ Zenod could not process that voice note. Please try again.".toList

/-! ## The followers of a recording -/

namespace Store

/-- The duplicates of a recording without a receipt get that of their owner. -/
def reconcileVoiceCoalescedFollowers (s : Store) (canonical : Text) (now : Int) : Store :=
  ((s.coalescings.rows.filter fun c => c.canonicalProviderMessageId = canonical && c.role = .duplicate).insertionSort fun a b =>
    a.createdAt < b.createdAt ∨ a.createdAt = b.createdAt ∧ a.providerMessageId ≤ b.providerMessageId).foldl
    (fun s follower =>
      match s.channelAudit canonical, s.channelAudit follower.providerMessageId with
      | some owner, none =>
        match s.audits.insert? {
            providerMessageId := follower.providerMessageId, tenantId := owner.tenantId, replyText := owner.replyText
            lifecycleState := "coalesced".toList, updatedAt := now } with
        | some audits => ({ s with audits := audits } : Store).setStatus (·.messageId = follower.providerMessageId) "coalesced".toList
        | none => s
      | _, _ => s)
    s

end Store

/-! ## The worker -/

/-- The answer of the usage admission; without a meter there is none. -/
inductive Admission | ready | paused | throws | absent
deriving DecidableEq

/-- What the meter answers in a step. -/
structure Answers where
  admission : Admission
  /-- The settlement of the usage does not throw. -/
  settles : Bool

/-- What an awaited call comes back with. -/
inductive Reply
  | done (ok : Bool)
  | transcribed (receipt : TranscriptionReceipt)
  /-- The handoff came back; `observes`: the job that it names can be observed. -/
  | forwarded (tenantId replyText : Text) (observes : Bool)
  | rejected (retryable : Bool)

/-- Where the worker is. Everywhere but at the head of its loop it awaits something. -/
inductive Phase
  | idle
  | head
  | reading (job : VoiceJob) (metered : Bool)
  | transcribing (job : VoiceJob) (metered : Bool)
  | forwarding (job : VoiceJob)
  /-- The recoveries are drained, behind a failure or a reply. -/
  | draining (job : VoiceJob)
  | drainingReply (job : VoiceJob)
  | drainingError
  /-- `runVoiceWorker` has returned. -/
  | returned
deriving DecidableEq

structure Runtime where
  store : Store
  lastVoiceTenantId : Option Text := none
  voiceWorkerClosed : Bool := false
  voiceWorkerWakeRequested : Bool := false
  phase : Phase := .idle
  /-- The kick of a new job is still to come. -/
  owed : Bool := false
  /-- The tenants whose admission answered paused since the worker was started. -/
  paused : List Text := []
  /-- The jobs whose settlement failed since the worker was started. -/
  unsettled : List Text := []

namespace Runtime

variable (lib : VoiceLibrary)

/-- The settlement of the job's usage fails. -/
def unsettle (c : Runtime) (job : VoiceJob) : Runtime := { c with unsettled := job.providerMessageId :: c.unsettled }

/-- What is done with an error. -/
def caught (c : Runtime) (job : VoiceJob) (retryable : Bool) (now : Int) : Runtime :=
  let id := job.providerMessageId
  let state : Option VoiceJobState := (c.store.voiceJob id).map (·.state)
  if state = some .cancelled then { c with phase := .head }
  else if c.voiceWorkerClosed && state = some .transcribing then
    { c with store := c.store.requeueInterruptedVoiceJob id now, phase := .head }
  else if state = some .transcribed then { c with phase := .returned }
  else if state = some .forwarding then
    { c with
      store := if retryable then c.store.deferIdempotentVoiceCapture id retryNotice now
        else c.store.markVoiceRingOutcomeUnknown id now
      phase := .drainingError }
  else { c with store := c.store.queueVoiceFailureReply id voiceFailureNotice none now, phase := .drainingError }

/-- A transcript is handed off. -/
def handOff (c : Runtime) (job : VoiceJob) (receipt : TranscriptionReceipt) (now : Int) : Runtime :=
  let id := job.providerMessageId
  if receipt.isBlank && !receipt.isDurationLimit then
    { c with store := c.store.queueVoiceFailureReply id emptyTranscriptNotice none now, phase := .draining job }
  else
    let (claimed, store) := c.store.claimVoiceRingHandoff id now
    { c with store := store, phase := if claimed then .forwarding job else .head }

/-- A transcription came back. -/
def transcribed (c : Runtime) (job : VoiceJob) (metered : Bool) (receipt : TranscriptionReceipt) (settles : Bool) (now : Int) :
    Runtime :=
  let id := job.providerMessageId
  let settling (c next : Runtime) : Runtime := if metered && !settles then (c.unsettle job).caught job false now else next
  if c.store.isIn id (· = .cancelled) then settling c { c with phase := .head }
  else if !receipt.isDurationLimit && (receipt.transcriptionFailed.isSome || receipt.isBlank) then
    settling c { c with
      store := c.store.queueVoiceFailureReply id (lib.failureReply receipt.failure) (some receipt.failure.detail) now
      phase := .draining job }
  else if c.store.isIn id (· = .transcribing) then
    let c := { c with store := c.store.persistVoiceTranscript id (lib.writeReceipt receipt) now }
    settling c (c.handOff job receipt now)
  else settling c { c with phase := .head }

/-- The admission of a job that is to be transcribed, or whose transcript is to be settled. -/
def admitted (c : Runtime) (job : VoiceJob) (a : Answers) (now : Int) : Runtime :=
  if job.state = .transcribed then
    let receipt : TranscriptionReceipt := (job.transcription.bind (·.getLeft?)).elim {} lib.readReceipt
    if receipt.isDurationLimit then c.handOff job receipt now
    else
      match a.admission with
      | .throws => (c.unsettle job).caught job false now
      | .paused => { c with phase := .returned, paused := job.tenantId :: c.paused }
      | .absent => c.handOff job receipt now
      | .ready => if a.settles then c.handOff job receipt now else (c.unsettle job).caught job false now
  else
    let duration := lib.durationSeconds job.providerMessageId
    if duration.any (maxVoiceTranscriptionSeconds < ·) then c.transcribed lib job false (durationLimit duration) a.settles now
    else
      match a.admission with
      | .throws => c.caught job false now
      | .paused =>
        { c with
          store := c.store.requeueInterruptedVoiceJob job.providerMessageId now
          phase := .returned, paused := job.tenantId :: c.paused }
      | .absent => { c with phase := .reading job false }
      | .ready => { c with phase := .reading job true }

/-- The worker starts, in a run of its own. -/
def started (c : Runtime) : Runtime :=
  { c with voiceWorkerWakeRequested := false, phase := .head, paused := [], unsettled := [] }

def kickVoiceWorker (c : Runtime) : Runtime :=
  if c.voiceWorkerClosed then c
  else if c.phase = .idle then { c.started with owed := false }
  else { c with voiceWorkerWakeRequested := true, owed := false }

/-- The worker goes on from where it is, up to what it awaits next. -/
def work (c : Runtime) (a : Answers) (r : Reply) (now : Int) : Runtime :=
  match c.phase, r with
  | .idle, _ => c
  | .head, _ =>
    if c.voiceWorkerClosed then { c with phase := .returned }
    else
      match c.store.claimNextVoiceJob c.lastVoiceTenantId now with
      | (none, store) => { c with store := store, phase := .returned }
      | (some job, store) => { c with store := store, lastVoiceTenantId := some job.tenantId }.admitted lib job a now
  | .reading job metered, .done ok =>
    if ok then { c with phase := .transcribing job metered } else c.caught job false now
  | .transcribing job metered, .transcribed receipt =>
    c.transcribed lib job metered { receipt with durationSeconds := lib.durationSeconds job.providerMessageId } a.settles now
  | .transcribing job _, .rejected _ => c.caught job false now
  | .forwarding job, .forwarded tenantId replyText observes =>
    if observes then
      let id := job.providerMessageId
      let c := { c with
        store := (c.store.recordChannelForwarding id tenantId replyText now).reconcileVoiceCoalescedFollowers id now }
      if (boundedRecoveryReply replyText).isSome && c.store.isIn id (· = .forwarding) then
        { c with store := c.store.completeVoiceRingHandoff id replyText now, phase := .drainingReply job }
      else c.caught job false now
    else c.caught job false now
  | .forwarding job, .rejected retryable => c.caught job retryable now
  | .draining job, .done ok => if ok then { c with phase := .head } else c.caught job false now
  -- what follows the reply may throw, too
  | .drainingReply job, .done ok => if ok then { c with phase := .head } else c.caught job false now
  | .drainingError, .done ok =>
    if ok then { c with phase := .head }
    -- the error leaves the loop; a wake-up that came meanwhile starts the worker anew
    else if c.voiceWorkerWakeRequested && !c.voiceWorkerClosed then c.started
    else { c with phase := .idle }
  | .returned, _ =>
    if c.voiceWorkerWakeRequested && !c.voiceWorkerClosed then { c with voiceWorkerWakeRequested := false, phase := .head }
    else { c with phase := .idle }
  | _, _ => c

end Runtime

/-! ## Runs -/

/-- What others do with the store: no job begins to wait by it. -/
def Op.isOutside : Op → Bool
  | .recordMessage _ | .cancelLatestVoiceJob _ _ _ | .recordChannelForwarding _ _ _ _ | .claimInterruptedMediaRecovery _
  | .completeInterruptedMediaRecovery _ _ _ | .claimMediaCoalescing _ _ _ _ _ _ | .completeMediaCoalescing _ _ _
  | .writeIntents _ => true
  | _ => false

inductive WorkerMove
  | work (a : Answers) (r : Reply) (now : Int)
  | kickVoiceWorker
  /-- A job is made, and its kick follows. -/
  | createVoiceJob (job : VoiceJob)
  | retryPendingVoiceCaptures (tenantId : Text) (now : Int)
  | outside (op : Op) (h : op.isOutside = true)
  | close

/-- Others run while the worker awaits something. -/
def Runtime.meanwhile (c next : Runtime) : Runtime := if c.phase = .head then c else next

/-- A move; a kick may also come from what the worker calls. -/
def Runtime.step (lib : VoiceLibrary) (c : Runtime) : WorkerMove → Runtime
  | .work a r now => c.work lib a r now
  | .kickVoiceWorker => c.kickVoiceWorker
  | .createVoiceJob job => c.meanwhile { c with store := c.store.createVoiceJob job, owed := true }
  | .retryPendingVoiceCaptures tenantId now =>
    let next := { c with store := c.store.resumeIdempotentVoiceCaptures tenantId now }
    c.meanwhile (if c.store.deferredCaptures tenantId = [] then next else next.kickVoiceWorker)
  | .outside op _ => c.meanwhile { c with store := c.store.exec op }
  | .close => c.meanwhile { c with voiceWorkerClosed := true }

end Zenod.WhatsApp
