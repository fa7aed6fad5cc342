/-
Voice jobs, media recoveries and coalesced media of the channel store
(`whatsappStore.ts`): the rows that its operations read and write, each
operation as one transaction, and the recovery when the store is opened.
-/
import Zenod.Lib.Table
import Zenod.Lib.Text
import Mathlib.Data.List.Lex
import Mathlib.Data.List.Sort

namespace Zenod.WhatsApp

open Keyed Text

inductive VoiceJobState
  | awaitingConfirmation | queued | transcribing | transcribed | forwarding | replyReady | completed | cancelled | failed
  | captureRetryPending | ringOutcomeUnknown
deriving DecidableEq

/-- What can be cancelled. -/
def VoiceJobState.isCancellable : VoiceJobState → Bool
  | .awaitingConfirmation | .queued | .transcribing | .transcribed | .captureRetryPending => true
  | _ => false

/-- What can not fail any more. -/
def VoiceJobState.isSettled : VoiceJobState → Bool
  | .cancelled | .completed | .replyReady | .ringOutcomeUnknown => true
  | _ => false

/-- What is still to be handed off, as the recovery sees it. -/
def VoiceJobState.isWaiting : VoiceJobState → Bool
  | .awaitingConfirmation | .queued | .transcribing | .transcribed => true
  | _ => false

/-- What is known of a failed transcription. -/
structure VoiceFailureDetail where
  reason : Option Text := none
  provider : Option Text := none
  httpStatus : Option Int := none
  providerCode : Option Text := none
  message : Option Text := none
deriving DecidableEq

/-- A row of `whatsapp_voice_jobs`; `transcription` is JSON, or that of a failure. -/
structure VoiceJob where
  providerMessageId : Text
  tenantId : Text
  conversationKey : Text
  artifactSha256 : Text
  state : VoiceJobState
  transcription : Option (Text ⊕ VoiceFailureDetail) := none
  replyText : Option Text := none
  errorText : Option Text := none
  failure : VoiceFailureDetail := {}
  attempts : Nat := 0
  createdAt : Int
  updatedAt : Int
deriving DecidableEq

instance : Keyed VoiceJob where
  clash a b := a.providerMessageId == b.providerMessageId
  clash_symm _ _ := BEq.comm

/-- A row of `whatsapp_messages`. -/
structure Message where
  messageId : Text
  chatId : Text
  contactId : Option Text := none
  hasMedia : Bool
  processingStatus : Text
deriving DecidableEq

instance : Keyed Message where
  clash a b := a.messageId == b.messageId
  clash_symm _ _ := BEq.comm

/-- A row of `whatsapp_channel_audit`. -/
structure ChannelAudit where
  providerMessageId : Text
  tenantId : Text
  replyText : Option Text
  lifecycleState : Text
  outboundProviderId : Option Text := none
  outboundStatus : Option Text := none
  updatedAt : Int
deriving DecidableEq

instance : Keyed ChannelAudit where
  clash a b := a.providerMessageId == b.providerMessageId
  clash_symm _ _ := BEq.comm

inductive RecoveryKind | forwardedReply | interruptedFailure
deriving DecidableEq

inductive RecoveryState | pending | claimed | recoveredReplied | failureNotified | providerNotificationFailed
deriving DecidableEq

/-- A row of `whatsapp_media_recovery`. -/
structure Recovery where
  providerMessageId : Text
  kind : RecoveryKind
  state : RecoveryState := .pending
  replyText : Text
  outboundProviderId : Option Text := none
  errorText : Option Text := none
  claimedAt : Option Int := none
  completedAt : Option Int := none
  createdAt : Int
  updatedAt : Int
deriving DecidableEq

instance : Keyed Recovery where
  clash a b := a.providerMessageId == b.providerMessageId
  clash_symm _ _ := BEq.comm

inductive Channel | whatsapp | telegram
deriving DecidableEq

inductive Role | owner | duplicate
deriving DecidableEq

inductive OutcomeState | processing | completed | failed
deriving DecidableEq

/-- A row of `whatsapp_media_coalescing`, with the window that it was claimed with. -/
structure Coalescing where
  providerMessageId : Text
  tenantId : Text
  channel : Channel
  artifactSha256 : Text
  canonicalProviderMessageId : Text
  role : Role
  outcome : OutcomeState
  windowMs : Int
  createdAt : Int
  updatedAt : Int
deriving DecidableEq

instance : Keyed Coalescing where
  clash a b := a.providerMessageId == b.providerMessageId
  clash_symm _ _ := BEq.comm

/-- A row of `whatsapp_outbound_intents`. -/
structure OutboundIntent where
  intentId : Text
  sourceMessageId : Text
  tenantId : Option Text
  successStatus : Text
  pending : Bool
deriving DecidableEq

/-- A recovery that was claimed. -/
structure RecoveryClaim where
  providerMessageId : Text
  kind : RecoveryKind
  replyText : Text
  chatId : Text
  contactId : Option Text
  claimedAt : Int
deriving DecidableEq

/-- What is remembered of a run: the handoffs claimed and completed, the captures deferred and resumed. -/
inductive VoiceEvent
  | handoff (id : Text)
  | answered (id : Text)
  | deferred (id : Text)
  | resumed (id : Text)
deriving DecidableEq

structure Store where
  jobs : Table VoiceJob := .empty
  messages : Table Message := .empty
  audits : Table ChannelAudit := .empty
  recoveries : Table Recovery := .empty
  coalescings : Table Coalescing := .empty
  intents : List OutboundIntent := []
  /-- The recoveries that were claimed so far. -/
  claims : List RecoveryClaim := []
  log : List VoiceEvent := []

/-! ## Texts -/

/-- `boundedRecoveryReply`. -/
def boundedRecoveryReply (value : Text) : Option Text := (some (takeUnits 65536 (trim value))).filter (· ≠ [])

/-- `NULLIF(TRIM(text), '')`: SQL trims blanks only. -/
def sqlTrimmed (text : Option Text) : Option Text :=
  (text.map fun t => (t.dropWhile (· = ' ')).rdropWhile (· = ' ')).filter (· ≠ [])

def processing : Text := "processing".toList

def interruptedNotice : Text :=
  ("⚠️ I received your media, but a service restart interrupted processing before I could record a safe delivery receipt. " ++
    "I will not retry it automatically to avoid duplicate delivery. Please check the conversation before resending.").toList

def outcomeUnknownNotice : Text :=
  ("⚠️ Your voice note was transcribed, but Zenod could not confirm the final result. " ++
    "I will not retry it automatically because that could perform the request twice.").toList

namespace Store

variable (s : Store)

/-! ## Rows -/

def voiceJob (id : Text) : Option VoiceJob := s.jobs.rows.find? (·.providerMessageId = id)

def message (id : Text) : Option Message := s.messages.rows.find? (·.messageId = id)

def channelAudit (id : Text) : Option ChannelAudit := s.audits.rows.find? (·.providerMessageId = id)

def mediaRecovery (id : Text) : Option Recovery := s.recoveries.rows.find? (·.providerMessageId = id)

def mediaCoalescing (id : Text) : Option Coalescing := s.coalescings.rows.find? (·.providerMessageId = id)

/-- Jobs of a kind are changed. -/
def updateJobs (p : VoiceJob → Bool) (f : VoiceJob → VoiceJob) (hf : ∀ j, (f j).providerMessageId = j.providerMessageId) : Store :=
  { s with jobs := s.jobs.update p f fun j k => congrArg (· == k.providerMessageId) (hf j) }

/-- The job is in one of the states, and gets another. -/
def moveJob (id : Text) (states : VoiceJobState → Bool) (state : VoiceJobState) (now : Int) : Store :=
  s.updateJobs (fun j => j.providerMessageId = id && states j.state) (fun j => { j with state := state, updatedAt := now })
    fun _ => rfl

def isIn (id : Text) (states : VoiceJobState → Bool) : Bool := (s.voiceJob id).any fun j => states j.state

def setStatus (p : Message → Bool) (status : Text) : Store :=
  { s with messages := s.messages.update p (fun m => { m with processingStatus := status }) fun _ _ => rfl }

def updateAudits (p : ChannelAudit → Bool) (f : ChannelAudit → ChannelAudit)
    (hf : ∀ a, (f a).providerMessageId = a.providerMessageId) : Store :=
  { s with audits := s.audits.update p f fun a b => congrArg (· == b.providerMessageId) (hf a) }

def updateRecoveries (p : Recovery → Bool) (f : Recovery → Recovery)
    (hf : ∀ r, (f r).providerMessageId = r.providerMessageId) : Store :=
  { s with recoveries := s.recoveries.update p f fun a b => congrArg (· == b.providerMessageId) (hf a) }

/-- `INSERT ... ON CONFLICT DO UPDATE ... WHERE`: a pending recovery of a kind, anew if `p` says so of the one there. -/
def upsertRecovery (r : Recovery) (p : Recovery → Bool) : Store :=
  match s.recoveries.insert? r with
  | some recoveries => { s with recoveries := recoveries }
  | none =>
    s.updateRecoveries (fun old => old.providerMessageId = r.providerMessageId && p old)
      (fun old => { r with providerMessageId := old.providerMessageId, createdAt := old.createdAt }) fun _ => rfl

/-- The outcome of an owner and its duplicates. -/
def settle (canonical : Text) (outcome : OutcomeState) (now : Int) : Store :=
  { s with
    coalescings := s.coalescings.update (·.canonicalProviderMessageId = canonical)
      (fun c => { c with outcome := outcome, updatedAt := now }) fun _ _ => rfl }

/-! ## Voice jobs -/

def createVoiceJob (job : VoiceJob) : Store :=
  match s.jobs.insert? job with
  | none => s
  | some jobs => { s with jobs := jobs }

/-- The order of the queue: jobs of the last tenant come last. -/
def comesFirst (lastTenantId : Option Text) (a b : VoiceJob) : Bool :=
  let last (j : VoiceJob) : Nat := if lastTenantId = some j.tenantId then 1 else 0
  if last a ≠ last b then last a < last b
  else if a.createdAt ≠ b.createdAt then a.createdAt < b.createdAt
  else a.providerMessageId ≤ b.providerMessageId

/-- The job that is claimed next. -/
def nextVoiceJob (lastTenantId : Option Text) : Option VoiceJob :=
  ((s.jobs.rows.filter fun j => j.state = .queued || j.state = .transcribed).insertionSort
    fun a b => comesFirst lastTenantId a b = true).head?

def claimNextVoiceJob (lastTenantId : Option Text) (now : Int) : Option VoiceJob × Store :=
  match s.nextVoiceJob lastTenantId with
  | none => (none, s)
  | some job =>
    if job.state = .transcribed then (some job, s)
    else
      let s := s.updateJobs (fun j => j.providerMessageId = job.providerMessageId && j.state = .queued)
        (fun j => { j with state := .transcribing, attempts := j.attempts + 1, updatedAt := now }) fun _ => rfl
      (s.voiceJob job.providerMessageId, s)

/-- The job of a conversation that was created last, of some states. -/
def latestVoiceJob (tenantId conversationKey : Text) (states : VoiceJobState → Bool) : Option VoiceJob :=
  ((s.jobs.rows.filter fun j => j.tenantId = tenantId && j.conversationKey = conversationKey && states j.state).insertionSort
    fun a b => b.createdAt < a.createdAt ∨ b.createdAt = a.createdAt ∧ b.providerMessageId ≤ a.providerMessageId).head?

def confirmLatestVoiceJob (tenantId conversationKey : Text) (now : Int) : Store :=
  match s.latestVoiceJob tenantId conversationKey (· = .awaitingConfirmation) with
  | none => s
  | some job => s.moveJob job.providerMessageId (· = .awaitingConfirmation) .queued now

def cancelLatestVoiceJob (tenantId conversationKey : Text) (now : Int) : Store :=
  match s.latestVoiceJob tenantId conversationKey VoiceJobState.isCancellable with
  | none => s
  | some job =>
    ((s.moveJob job.providerMessageId VoiceJobState.isCancellable .cancelled now).setStatus
      (·.messageId = job.providerMessageId) "cancelled".toList).settle job.providerMessageId .failed now

def persistVoiceTranscript (id transcription : Text) (now : Int) : Store :=
  s.updateJobs (fun j => j.providerMessageId = id && j.state = .transcribing) (fun j => { j with
    state := .transcribed, transcription := some (.inl transcription), errorText := none, failure := {}, updatedAt := now })
    fun _ => rfl

def requeueInterruptedVoiceJob (id : Text) (now : Int) : Store :=
  s.updateJobs (fun j => j.providerMessageId = id && j.state = .transcribing)
    (fun j => { j with state := .queued, errorText := none, updatedAt := now }) fun _ => rfl

def claimVoiceRingHandoff (id : Text) (now : Int) : Bool × Store :=
  if s.isIn id (· = .transcribed) then
    (true, { s.moveJob id (· = .transcribed) .forwarding now with log := s.log ++ [VoiceEvent.handoff id] })
  else (false, s)

/-- A new recovery. -/
def newRecovery (id : Text) (kind : RecoveryKind) (replyText : Text) (now : Int) : Recovery where
  providerMessageId := id
  kind := kind
  replyText := replyText
  createdAt := now
  updatedAt := now

def completeVoiceRingHandoff (id replyText : Text) (now : Int) : Store :=
  match boundedRecoveryReply replyText with
  | none => s
  | some bounded =>
    if s.isIn id (· = .forwarding) then
      let s := s.updateJobs (fun j => j.providerMessageId = id && j.state = .forwarding)
        (fun j => { j with state := .replyReady, replyText := some bounded, errorText := none, updatedAt := now }) fun _ => rfl
      let s := s.upsertRecovery (newRecovery id .forwardedReply bounded now) (·.kind = .interruptedFailure)
      { s with log := s.log ++ [VoiceEvent.answered id] }
    else s

def queueVoiceFailureReply (id replyText : Text) (failure : Option VoiceFailureDetail) (now : Int) : Store :=
  match boundedRecoveryReply replyText with
  | none => s
  | some bounded =>
    if s.isIn id (!·.isSettled) then
      let s := s.updateJobs (fun j => j.providerMessageId = id && !j.state.isSettled)
        (fun j => { j with
          state := .failed, errorText := some bounded, transcription := failure.map .inr
          failure := { failure.getD {} with message := none }, updatedAt := now }) fun _ => rfl
      let s := s.upsertRecovery (newRecovery id .interruptedFailure bounded now) fun _ => false
      s.settle id .failed now
    else s

def markVoiceRingOutcomeUnknown (id : Text) (now : Int) : Store :=
  if s.isIn id (· = .forwarding) then
    let s := s.updateJobs (fun j => j.providerMessageId = id && j.state = .forwarding)
      (fun j => { j with
        state := .ringOutcomeUnknown, errorText := some "Ring handoff outcome unknown; not retried".toList, updatedAt := now })
      fun _ => rfl
    let s := s.upsertRecovery (newRecovery id .interruptedFailure outcomeUnknownNotice now) fun _ => false
    s.settle id .failed now
  else s

def deferIdempotentVoiceCapture (id replyText : Text) (now : Int) : Store :=
  match boundedRecoveryReply replyText with
  | none => s
  | some bounded =>
    if s.isIn id (· = .forwarding) then
      let s := s.updateJobs (fun j => j.providerMessageId = id && j.state = .forwarding)
        (fun j => { j with state := .captureRetryPending, errorText := some bounded, updatedAt := now }) fun _ => rfl
      let s := s.upsertRecovery (newRecovery id .interruptedFailure bounded now) fun _ => true
      let s := s.settle id .failed now
      { s with log := s.log ++ [VoiceEvent.deferred id] }
    else s

/-- The deferred captures of a tenant. -/
def deferredCaptures (tenantId : Text) : List Text :=
  (s.jobs.rows.filter fun j => j.tenantId = tenantId && j.state = .captureRetryPending).map (·.providerMessageId)

def resumeIdempotentVoiceCaptures (tenantId : Text) (now : Int) : Store :=
  let pending := s.deferredCaptures tenantId
  let s := s.updateJobs (fun j => j.tenantId = tenantId && j.state = .captureRetryPending)
    (fun j => { j with state := .transcribed, errorText := none, updatedAt := now }) fun _ => rfl
  let s := pending.foldl (fun s id => s.settle id .processing now) s
  { s with log := s.log ++ pending.map .resumed }

/-! ## Messages, receipts and recoveries -/

/-- A message is recorded and taken up. -/
def recordMessage (m : Message) : Store :=
  match s.messages.insert? m with
  | none => s
  | some messages => { s with messages := messages }

def recordChannelForwarding (id tenantId replyText : Text) (now : Int) : Store :=
  let audit : ChannelAudit := {
    providerMessageId := id, tenantId := tenantId, replyText := boundedRecoveryReply replyText
    lifecycleState := "forwarded".toList, updatedAt := now }
  match s.audits.insert? audit with
  | some audits => { s with audits := audits }
  | none =>
    s.updateAudits (·.providerMessageId = id)
      (fun a => { a with
        tenantId := tenantId, replyText := audit.replyText, lifecycleState := "forwarded".toList, updatedAt := now }) fun _ => rfl

/-- The pending recoveries of recorded messages, oldest first. -/
def pendingRecoveries : List (Recovery × Message) :=
  ((s.recoveries.rows.filter (·.state = .pending)).insertionSort fun a b => a.createdAt ≤ b.createdAt).filterMap fun r =>
    (s.message r.providerMessageId).map fun m => (r, m)

def claimInterruptedMediaRecovery (now : Int) : Option RecoveryClaim × Store :=
  match s.pendingRecoveries.head? with
  | none => (none, s)
  | some (r, m) =>
    let claim : RecoveryClaim := ⟨r.providerMessageId, r.kind, r.replyText, m.chatId, m.contactId, now⟩
    let s := s.updateRecoveries (fun q => q.providerMessageId = r.providerMessageId && q.state = .pending)
      (fun q => { q with state := .claimed, claimedAt := some now, updatedAt := now }) fun _ => rfl
    (some claim, { s with claims := claim :: s.claims })

/-- How a claimed recovery went: sent, under an intent, or failed. -/
inductive RecoveryOutcome
  | sent (sentMessageId : Text) (intentId : Text)
  | failed (error : Text)

def completeInterruptedMediaRecovery (claim : RecoveryClaim) (outcome : RecoveryOutcome) (now : Int) : Store :=
  let id := claim.providerMessageId
  match outcome with
  | .sent sentMessageId intentId =>
    let forwarded := claim.kind = .forwardedReply
    let s : Store := { s with
      intents := s.intents.map fun i => if i.intentId = intentId then { i with pending := false } else i }
    let s := s.updateRecoveries (fun r => r.providerMessageId = id && r.state = .claimed)
      (fun r => { r with
        state := if forwarded then .recoveredReplied else .failureNotified, outboundProviderId := some sentMessageId
        errorText := none, completedAt := some now, updatedAt := now }) fun _ => rfl
    let s := s.setStatus (·.messageId = id) (if forwarded then "replied".toList else "failed_notified".toList)
    let s := s.updateAudits (·.providerMessageId = id)
      (fun a => { a with
        lifecycleState := if forwarded then "replied".toList else "failed".toList
        outboundProviderId := some sentMessageId
        outboundStatus := some (if forwarded then "recovery_sent".toList else "recovery_notice_sent".toList), updatedAt := now })
      fun _ => rfl
    if forwarded then (s.settle id .completed now).moveJob id (· = .replyReady) .completed now else s
  | .failed error =>
    let s := s.updateRecoveries (fun r => r.providerMessageId = id && r.state = .claimed)
      (fun r => { r with
        state := .providerNotificationFailed, outboundProviderId := none, errorText := some error, completedAt := some now
        updatedAt := now }) fun _ => rfl
    let s := s.setStatus (·.messageId = id) "failed".toList
    s.updateAudits (·.providerMessageId = id)
      (fun a => { a with
        lifecycleState := "failed".toList, outboundProviderId := none, outboundStatus := some "recovery_failed".toList
        updatedAt := now }) fun _ => rfl

/-! ## Coalesced media -/

/-- The owner that is found for an artifact, the oldest. -/
def liveOwner (tenantId : Text) (channel : Channel) (artifactSha256 : Text) (cutoff : Int) : Option Coalescing :=
  ((s.coalescings.rows.filter fun c => c.tenantId = tenantId && c.channel = channel && c.artifactSha256 = artifactSha256 &&
    c.role = .owner && cutoff ≤ c.createdAt && c.outcome ≠ .failed).insertionSort fun a b =>
      a.createdAt < b.createdAt ∨ a.createdAt = b.createdAt ∧ a.providerMessageId ≤ b.providerMessageId).head?

def claimMediaCoalescing (id tenantId : Text) (channel : Channel) (artifactSha256 : Text) (windowMs now : Int) : Store :=
  let existing := s.liveOwner tenantId channel artifactSha256 (now - max 1 windowMs)
  let row : Coalescing := {
    providerMessageId := id, tenantId := tenantId, channel := channel, artifactSha256 := artifactSha256
    canonicalProviderMessageId := existing.elim id (·.providerMessageId)
    role := if existing.isSome then .duplicate else .owner
    outcome := existing.elim .processing (·.outcome)
    windowMs := windowMs, createdAt := now, updatedAt := now }
  match s.coalescings.insert? row with
  | none => s
  | some coalescings => { s with coalescings := coalescings }

/-! ## Opening -/

/-- The message was answered, as its audit says. -/
def isAnswered (id : Text) : Bool :=
  (s.channelAudit id).any fun a => a.outboundProviderId.isSome &&
    a.outboundStatus.any fun t => ["sent".toList, "delivered".toList, "read".toList, "recovery_sent".toList].contains t

/-- The job of a message is still to be handed off. -/
def isWaiting (id : Text) : Bool := s.isIn id (·.isWaiting)

/-- An intent says whether the recovery of a message was sent. -/
def hasIntent (id : Text) : Bool :=
  s.intents.any fun i => i.sourceMessageId = id && i.pending &&
    (i.successStatus = "recovery_sent".toList || i.successStatus = "recovery_notice_sent".toList) &&
    i.tenantId = (s.channelAudit id).map (·.tenantId)

/-- The recovery of a message was claimed, and nothing says whether it was sent. -/
def isUncertain (id : Text) : Bool := (s.mediaRecovery id).any (·.state = .claimed) && !s.hasIntent id

/-- The jobs of a store that is opened. -/
def recoverJobs (now : Int) : Store :=
  let s := s.updateJobs (·.state = .transcribing) (fun j => { j with state := .queued, errorText := none, updatedAt := now })
    fun _ => rfl
  let reply (j : VoiceJob) : Option Text := (s.channelAudit j.providerMessageId).bind (·.replyText)
  let s := s.updateJobs (fun j => j.state = .forwarding && (sqlTrimmed (reply j)).isSome)
    (fun j => { j with state := .replyReady, replyText := reply j, errorText := none, updatedAt := now }) fun _ => rfl
  s.updateJobs (·.state = .forwarding)
    (fun j => { j with
      state := .ringOutcomeUnknown
      errorText := some "Ring handoff outcome unknown after restart; not retried".toList, updatedAt := now }) fun _ => rfl

/-- The coalesced media: what was answered is completed, and what is not waiting has failed. -/
def recoverCoalescing (now : Int) : Store :=
  let s : Store := { s with
    coalescings := s.coalescings.update (fun c => c.outcome = .processing && s.isAnswered c.canonicalProviderMessageId)
      (fun c => { c with outcome := .completed, updatedAt := now }) fun _ _ => rfl }
  { s with
    coalescings := s.coalescings.update (fun c => c.outcome = .processing && !s.isWaiting c.canonicalProviderMessageId)
      (fun c => { c with outcome := .failed, updatedAt := now }) fun _ _ => rfl }

/-- The recoveries that were claimed: they are sent again under their intent, or have failed. -/
def recoverClaims (now : Int) : Store :=
  let uncertain := s.isUncertain
  let s := s.setStatus (uncertain ·.messageId) "failed".toList
  let s := s.updateAudits (uncertain ·.providerMessageId)
    (fun a => { a with
      lifecycleState := "failed".toList, outboundStatus := some "recovery_unknown".toList, updatedAt := now }) fun _ => rfl
  let s := s.updateRecoveries (fun r => r.state = .claimed && !s.hasIntent r.providerMessageId)
    (fun r => { r with
      state := .providerNotificationFailed
      errorText := r.errorText.or (some "recovery send outcome unknown after restart".toList)
      completedAt := some now, updatedAt := now }) fun _ => rfl
  s.updateRecoveries (fun r => r.state = .claimed && s.hasIntent r.providerMessageId)
    (fun r => { r with state := .pending, claimedAt := none, updatedAt := now }) fun _ => rfl

/-- The recovery that a message in process gets. -/
def recoveryOf (m : Message) (now : Int) : Recovery :=
  let reply := sqlTrimmed ((s.channelAudit m.messageId).bind (·.replyText))
  newRecovery m.messageId (if reply.isSome then .forwardedReply else .interruptedFailure) (reply.getD interruptedNotice) now

/-- The messages in process: what was answered is replied, and the others are interrupted. -/
def recoverMessages (now : Int) : Store :=
  let s := s.setStatus (fun m => m.processingStatus = processing && s.isAnswered m.messageId) "replied".toList
  let s := s.updateAudits (fun a => a.lifecycleState = "forwarded".toList && s.isAnswered a.providerMessageId)
    (fun a => { a with lifecycleState := "replied".toList, updatedAt := now }) fun _ => rfl
  let interrupted (m : Message) : Bool := m.processingStatus = processing && !s.isWaiting m.messageId
  let s := (s.messages.rows.filter fun m => interrupted m && m.hasMedia).foldl
    (fun t m => t.upsertRecovery (s.recoveryOf m now) fun _ => false) s
  let s := s.setStatus interrupted "interrupted".toList
  s.updateAudits (fun a => a.lifecycleState = "forwarded".toList &&
      (s.message a.providerMessageId).any (·.processingStatus = "interrupted".toList))
    (fun a => { a with lifecycleState := "interrupted".toList, updatedAt := now }) fun _ => rfl

/-- The store is opened anew. -/
def reopen (now : Int) : Store := (((s.recoverJobs now).recoverCoalescing now).recoverClaims now).recoverMessages now

end Store

/-! ## Runs -/

inductive Op
  | recordMessage (m : Message)
  | createVoiceJob (job : VoiceJob)
  | claimNextVoiceJob (lastTenantId : Option Text) (now : Int)
  | confirmLatestVoiceJob (tenantId conversationKey : Text) (now : Int)
  | cancelLatestVoiceJob (tenantId conversationKey : Text) (now : Int)
  | persistVoiceTranscript (id transcription : Text) (now : Int)
  | requeueInterruptedVoiceJob (id : Text) (now : Int)
  | claimVoiceRingHandoff (id : Text) (now : Int)
  | recordChannelForwarding (id tenantId replyText : Text) (now : Int)
  | completeVoiceRingHandoff (id replyText : Text) (now : Int)
  | queueVoiceFailureReply (id replyText : Text) (failure : Option VoiceFailureDetail) (now : Int)
  | markVoiceRingOutcomeUnknown (id : Text) (now : Int)
  | deferIdempotentVoiceCapture (id replyText : Text) (now : Int)
  | resumeIdempotentVoiceCaptures (tenantId : Text) (now : Int)
  | claimInterruptedMediaRecovery (now : Int)
  | completeInterruptedMediaRecovery (claim : RecoveryClaim) (outcome : Store.RecoveryOutcome) (now : Int)
  | claimMediaCoalescing (id tenantId : Text) (channel : Channel) (artifactSha256 : Text) (windowMs now : Int)
  | completeMediaCoalescing (canonical : Text) (completed : Bool) (now : Int)
  | writeIntents (intents : List OutboundIntent)
  | reopen (now : Int)

def Store.exec (s : Store) : Op → Store
  | .recordMessage m => s.recordMessage m
  | .createVoiceJob job => s.createVoiceJob job
  | .claimNextVoiceJob lastTenantId now => (s.claimNextVoiceJob lastTenantId now).2
  | .confirmLatestVoiceJob tenantId conversationKey now => s.confirmLatestVoiceJob tenantId conversationKey now
  | .cancelLatestVoiceJob tenantId conversationKey now => s.cancelLatestVoiceJob tenantId conversationKey now
  | .persistVoiceTranscript id transcription now => s.persistVoiceTranscript id transcription now
  | .requeueInterruptedVoiceJob id now => s.requeueInterruptedVoiceJob id now
  | .claimVoiceRingHandoff id now => (s.claimVoiceRingHandoff id now).2
  | .recordChannelForwarding id tenantId replyText now => s.recordChannelForwarding id tenantId replyText now
  | .completeVoiceRingHandoff id replyText now => s.completeVoiceRingHandoff id replyText now
  | .queueVoiceFailureReply id replyText failure now => s.queueVoiceFailureReply id replyText failure now
  | .markVoiceRingOutcomeUnknown id now => s.markVoiceRingOutcomeUnknown id now
  | .deferIdempotentVoiceCapture id replyText now => s.deferIdempotentVoiceCapture id replyText now
  | .resumeIdempotentVoiceCaptures tenantId now => s.resumeIdempotentVoiceCaptures tenantId now
  | .claimInterruptedMediaRecovery now => (s.claimInterruptedMediaRecovery now).2
  | .completeInterruptedMediaRecovery claim outcome now => s.completeInterruptedMediaRecovery claim outcome now
  | .claimMediaCoalescing id tenantId channel artifactSha256 windowMs now =>
    s.claimMediaCoalescing id tenantId channel artifactSha256 windowMs now
  | .completeMediaCoalescing canonical completed now => s.settle canonical (if completed then .completed else .failed) now
  | .writeIntents intents => { s with intents := intents }
  | .reopen now => s.reopen now

end Zenod.WhatsApp
