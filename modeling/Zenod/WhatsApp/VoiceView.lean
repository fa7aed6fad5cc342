/-
What the channel store holds of one message: its rows, and what was done with
its voice job. Each operation, the opening of the store included, does one of
a few things to that (`Moves`), whatever it does to other messages.
-/
import Zenod.Lib.Course
import Zenod.WhatsApp.VoiceStore

namespace Zenod.WhatsApp

open Keyed Text

/-- The rows of one message, and its handoffs so far. -/
structure View where
  message : Option Message
  job : Option VoiceJob
  audit : Option ChannelAudit
  recovery : Option Recovery
  claimed : Bool
  handoffs : Nat
  answered : Nat
  deferred : Nat
  resumed : Nat

def Store.view (s : Store) (id : Text) : View where
  message := s.message id
  job := s.voiceJob id
  audit := s.channelAudit id
  recovery := s.mediaRecovery id
  claimed := s.claims.any (·.providerMessageId = id)
  handoffs := s.log.count (.handoff id)
  answered := s.log.count (.answered id)
  deferred := s.log.count (.deferred id)
  resumed := s.log.count (.resumed id)

variable {s : Store} {op : Op} {id target : Text} {now : Int}

/-! ## Rows of a message -/

theorem voiceJob_of_mem {j : VoiceJob} (h : j ∈ s.jobs.rows) : s.voiceJob j.providerMessageId = some j :=
  Table.find?_of_mem (fun a b ha hb => by simp_all [Keyed.clash]) h (by simp)

theorem voiceJob_id {j : VoiceJob} (h : s.voiceJob id = some j) : j.providerMessageId = id := by
  simpa using List.find?_some h

theorem message_of_mem {m : Message} (h : m ∈ s.messages.rows) : s.message m.messageId = some m :=
  Table.find?_of_mem (fun a b ha hb => by simp_all [Keyed.clash]) h (by simp)

theorem message_id {m : Message} (h : s.message id = some m) : m.messageId = id := by
  simpa using List.find?_some h

theorem mediaRecovery_of_mem {r : Recovery} (h : r ∈ s.recoveries.rows) : s.mediaRecovery r.providerMessageId = some r :=
  Table.find?_of_mem (fun a b ha hb => by simp_all [Keyed.clash]) h (by simp)

theorem mediaRecovery_id {r : Recovery} (h : s.mediaRecovery id = some r) : r.providerMessageId = id := by
  simpa using List.find?_some h

theorem channelAudit_id {a : ChannelAudit} (h : s.channelAudit id = some a) : a.providerMessageId = id := by
  simpa using List.find?_some h

/-- A row of a message, updated where it is the one that is meant. -/
theorem map_update {Row : Type} {row : Option Row} {key : Row → Text} (hkey : ∀ r ∈ row, key r = id) (P : Row → Bool)
    (f : Row → Row) :
    (row.map fun r => if (key r = target && P r) then f r else r) =
      if id = target then row.map fun r => if P r then f r else r else row := by
  cases row with
  | none => simp only [Option.map_none, ite_self]
  | some r =>
    rw [Option.map_some, hkey r rfl]
    split <;> simp_all

theorem voiceJob_updateJobs (p : VoiceJob → Bool) (f : VoiceJob → VoiceJob) (hf) :
    (s.updateJobs p f hf).voiceJob id = (s.voiceJob id).map fun j => if p j then f j else j :=
  Table.find?_update (fun j k => congrArg (· == k.providerMessageId) (hf j)) fun j => by rw [hf]

theorem message_setStatus (p : Message → Bool) (status : Text) :
    (s.setStatus p status).message id =
      (s.message id).map fun m => if p m then { m with processingStatus := status } else m :=
  Table.find?_update (f := fun m : Message => { m with processingStatus := status }) (fun _ _ => rfl) fun _ => rfl

theorem channelAudit_updateAudits (p : ChannelAudit → Bool) (f : ChannelAudit → ChannelAudit) (hf) :
    (s.updateAudits p f hf).channelAudit id = (s.channelAudit id).map fun a => if p a then f a else a :=
  Table.find?_update (fun a b => congrArg (· == b.providerMessageId) (hf a)) fun a => by rw [hf]

theorem mediaRecovery_updateRecoveries (p : Recovery → Bool) (f : Recovery → Recovery) (hf) :
    (s.updateRecoveries p f hf).mediaRecovery id = (s.mediaRecovery id).map fun r => if p r then f r else r :=
  Table.find?_update (fun a b => congrArg (· == b.providerMessageId) (hf a)) fun r => by rw [hf]

@[simp] theorem view_updateJobs (p : VoiceJob → Bool) (f : VoiceJob → VoiceJob) (hf) :
    (s.updateJobs p f hf).view id = { s.view id with job := (s.view id).job.map fun j => if p j then f j else j } :=
  congrArg (fun job => ({ s.view id with job := job } : View)) (voiceJob_updateJobs p f hf)

@[simp] theorem view_setStatus (p : Message → Bool) (status : Text) :
    (s.setStatus p status).view id =
      { s.view id with message := (s.view id).message.map fun m => if p m then { m with processingStatus := status } else m } :=
  congrArg (fun message => ({ s.view id with message := message } : View)) (message_setStatus p status)

@[simp] theorem view_updateAudits (p : ChannelAudit → Bool) (f : ChannelAudit → ChannelAudit) (hf) :
    (s.updateAudits p f hf).view id = { s.view id with audit := (s.view id).audit.map fun a => if p a then f a else a } :=
  congrArg (fun audit => ({ s.view id with audit := audit } : View)) (channelAudit_updateAudits p f hf)

@[simp] theorem view_updateRecoveries (p : Recovery → Bool) (f : Recovery → Recovery) (hf) :
    (s.updateRecoveries p f hf).view id =
      { s.view id with recovery := (s.view id).recovery.map fun r => if p r then f r else r } :=
  congrArg (fun recovery => ({ s.view id with recovery := recovery } : View)) (mediaRecovery_updateRecoveries p f hf)

@[simp] theorem view_settle (canonical : Text) (outcome : OutcomeState) : (s.settle canonical outcome now).view id = s.view id :=
  rfl

/-- What an upsert leaves of a message's recovery. -/
def upserted (r : Recovery) (p : Recovery → Bool) (old : Option Recovery) : Recovery :=
  match old with
  | none => r
  | some old => if p old then { r with createdAt := old.createdAt } else old

theorem mediaRecovery_upsertRecovery (r : Recovery) (p : Recovery → Bool) :
    (s.upsertRecovery r p).mediaRecovery id =
      if id = r.providerMessageId then some (upserted r p (s.mediaRecovery id)) else s.mediaRecovery id := by
  unfold Store.upsertRecovery
  split
  · next recoveries h =>
    have hfresh := (Table.insert?_eq_some.1 h).1
    show recoveries.rows.find? (·.providerMessageId = id) = _
    rw [Table.find?_insert? h]
    show (s.mediaRecovery id).or _ = _
    by_cases hid : id = r.providerMessageId
    · have hnone : s.mediaRecovery id = none := by
        refine Option.eq_none_iff_forall_not_mem.2 fun q hq => ?_
        have hclash := hfresh q (List.mem_of_find?_eq_some hq)
        simp [Keyed.clash, mediaRecovery_id hq, hid] at hclash
      rw [hnone, if_pos hid]
      simp [upserted, hid]
    · rw [if_neg hid]
      simp [Ne.symm hid]
  · next h =>
    have hexists : ∃ old, s.mediaRecovery r.providerMessageId = some old := by
      by_contra hnone
      simp only [not_exists] at hnone
      have hfree : ∀ q ∈ s.recoveries.rows, Keyed.clash q r = false := by
        intro q hq
        rw [Bool.eq_false_iff]
        intro hclash
        have hq' := mediaRecovery_of_mem hq
        rw [show q.providerMessageId = r.providerMessageId by simpa [Keyed.clash] using hclash] at hq'
        exact hnone q hq'
      obtain ⟨t, ht, -⟩ := Table.insert?_isSome hfree
      rw [h] at ht
      cases ht
    rw [mediaRecovery_updateRecoveries]
    refine (map_update (fun q hq => mediaRecovery_id hq) p _).trans ?_
    split
    · next hid =>
      obtain ⟨old, hold⟩ := hexists
      rw [hid, hold]
      simp only [Option.map_some, upserted, Option.some.injEq]
      rw [mediaRecovery_id hold]
    · rfl

@[simp] theorem view_upsertRecovery (r : Recovery) (p : Recovery → Bool) :
    (s.upsertRecovery r p).view id =
      { s.view id with
        recovery := if id = r.providerMessageId then some (upserted r p (s.view id).recovery) else (s.view id).recovery } := by
  have hview : (s.upsertRecovery r p).view id = { s.view id with recovery := (s.upsertRecovery r p).mediaRecovery id } := by
    unfold Store.upsertRecovery
    split <;> rfl
  rw [hview, mediaRecovery_upsertRecovery]
  rfl

/-! ## A message when the store is opened -/

/-- The job of a message when the store is opened, by the reply that its audit knows. -/
def recoveredJob (reply : Option Text) (now : Int) (j : VoiceJob) : VoiceJob :=
  if j.state = .transcribing then { j with state := .queued, errorText := none, updatedAt := now }
  else if j.state = .forwarding then
    if (sqlTrimmed reply).isSome then
      { j with state := .replyReady, replyText := reply, errorText := none, updatedAt := now }
    else
      { j with
        state := .ringOutcomeUnknown
        errorText := some "Ring handoff outcome unknown after restart; not retried".toList, updatedAt := now }
  else j

theorem view_recoverJobs : (s.recoverJobs now).view id =
    { s.view id with job := (s.view id).job.map (recoveredJob ((s.view id).audit.bind (·.replyText)) now) } := by
  simp only [Store.recoverJobs, view_updateJobs, Option.map_map]
  congr 1
  cases hjob : (s.view id).job with
  | none => rfl
  | some j =>
    have hid : j.providerMessageId = id := voiceJob_id hjob
    have haudit : ∀ (p : VoiceJob → Bool) (f : VoiceJob → VoiceJob) (hf),
        (s.updateJobs p f hf).channelAudit id = (s.view id).audit := fun _ _ _ => rfl
    simp only [Option.map_some, Function.comp_apply, recoveredJob, Option.some.injEq]
    by_cases htranscribing : j.state = .transcribing
    · simp [htranscribing]
    · by_cases hforwarding : j.state = .forwarding
      · simp only [hforwarding, haudit, hid, reduceCtorEq, decide_false, decide_true, Bool.false_eq_true, if_false, if_true,
          Bool.true_and]
        split <;> simp [hforwarding, hid]
      · simp [htranscribing, hforwarding]

/-- The message was answered, as its audit says. -/
def ChannelAudit.isAnswered (a : ChannelAudit) : Bool :=
  a.outboundProviderId.isSome &&
    a.outboundStatus.any fun t => ["sent".toList, "delivered".toList, "read".toList, "recovery_sent".toList].contains t

/-- The recovery of a message was claimed, and no intent says whether it was sent. -/
def View.uncertain (v : View) (intent : Bool) : Bool := v.recovery.any (·.state = .claimed) && !intent

/-- The claim of a message's recovery when the store is opened. -/
def View.unclaimed (v : View) (intent : Bool) (now : Int) : View :=
  { v with
    message := v.message.map fun m => if v.uncertain intent then { m with processingStatus := "failed".toList } else m
    audit := v.audit.map fun a =>
      if v.uncertain intent then
        { a with lifecycleState := "failed".toList, outboundStatus := some "recovery_unknown".toList, updatedAt := now }
      else a
    recovery := v.recovery.map fun r =>
      if r.state = .claimed then
        if intent then { r with state := .pending, claimedAt := none, updatedAt := now }
        else
          { r with
            state := .providerNotificationFailed
            errorText := r.errorText.or (some "recovery send outcome unknown after restart".toList)
            completedAt := some now, updatedAt := now }
      else r }

theorem hasIntent_updateAudits (p : ChannelAudit → Bool) (f : ChannelAudit → ChannelAudit) (hf)
    (htenant : ∀ a, (f a).tenantId = a.tenantId) (id : Text) : (s.updateAudits p f hf).hasIntent id = s.hasIntent id := by
  have hsame : ((s.updateAudits p f hf).channelAudit id).map (·.tenantId) = (s.channelAudit id).map (·.tenantId) := by
    rw [channelAudit_updateAudits, Option.map_map]
    refine Option.map_congr fun a _ => ?_
    simp only [Function.comp_apply]
    split
    · exact htenant a
    · rfl
  simp only [Store.hasIntent, hsame]
  rfl

theorem view_recoverClaims : (s.recoverClaims now).view id = (s.view id).unclaimed (s.hasIntent id) now := by
  have huncertain : s.isUncertain id = (s.view id).uncertain (s.hasIntent id) := rfl
  simp only [Store.recoverClaims, view_updateRecoveries, view_updateAudits, view_setStatus, View.unclaimed, Option.map_map]
  congr 1
  · cases hm : (s.view id).message with
    | none => rfl
    | some m => simp only [Option.map_some, message_id hm, huncertain]
  · cases ha : (s.view id).audit with
    | none => rfl
    | some a => simp only [Option.map_some, channelAudit_id ha, huncertain]
  · cases hr : (s.view id).recovery with
    | none => rfl
    | some r =>
      have hid : r.providerMessageId = id := mediaRecovery_id hr
      have hintent : ∀ (p : ChannelAudit → Bool) (status : Message → Bool),
          ((s.setStatus status "failed".toList).updateAudits p (fun a => { a with
            lifecycleState := "failed".toList, outboundStatus := some "recovery_unknown".toList, updatedAt := now })
            fun _ => rfl).hasIntent id = s.hasIntent id := by
        intro p status
        refine hasIntent_updateAudits p _ _ ?_ id
        exact fun _ => rfl
      have hintent' : ∀ (t : Store) (p : Recovery → Bool) (f : Recovery → Recovery) (hf),
          (t.updateRecoveries p f hf).hasIntent id = t.hasIntent id := fun _ _ _ _ => rfl
      simp only [Option.map_some, Function.comp_apply, Option.some.injEq]
      by_cases hclaimed : r.state = .claimed
      · by_cases hi : s.hasIntent id = true
        · simp only [hclaimed, hid, hintent', hintent, hi, decide_true, Bool.not_true, Bool.and_false, Bool.and_true,
            Bool.false_eq_true, if_false, if_true]
        · simp only [hclaimed, hid, hintent', hintent, hi, decide_true, Bool.not_false, Bool.and_true,
            Bool.false_eq_true, if_false, if_true, reduceCtorEq, decide_false, Bool.false_and]
      · simp only [hclaimed, decide_false, Bool.false_and, Bool.false_eq_true, if_false]

/-- The recovery that a message in process gets when the store is opened. -/
def View.interruption (v : View) (m : Message) (now : Int) : Recovery :=
  let reply := sqlTrimmed (v.audit.bind (·.replyText))
  Store.newRecovery m.messageId (if reply.isSome then .forwardedReply else .interruptedFailure) (reply.getD interruptedNotice) now

def View.replied (v : View) (now : Int) : View :=
  { v with
    message := v.message.map fun m =>
      if m.processingStatus = processing && v.audit.any (·.isAnswered) then { m with processingStatus := "replied".toList } else m
    audit := v.audit.map fun a =>
      if a.lifecycleState = "forwarded".toList && a.isAnswered then
        { a with lifecycleState := "replied".toList, updatedAt := now }
      else a }

def View.isInterrupted (v : View) (m : Message) : Bool := m.processingStatus = processing && !v.job.any (·.state.isWaiting)

def View.interrupted (v : View) (now : Int) : View :=
  let message := v.message.map fun m => if v.isInterrupted m then { m with processingStatus := "interrupted".toList } else m
  { v with
    message := message
    recovery := v.recovery.or ((v.message.filter fun m => v.isInterrupted m && m.hasMedia).map (v.interruption · now))
    audit := v.audit.map fun a =>
      if a.lifecycleState = "forwarded".toList && message.any (·.processingStatus = "interrupted".toList) then
        { a with lifecycleState := "interrupted".toList, updatedAt := now }
      else a }

theorem view_foldl_upsert (id : Text) {R : Message → Recovery} (hR : ∀ m, (R m).providerMessageId = m.messageId) (l : List Message) :
    ∀ t : Store, (l.foldl (fun t m => t.upsertRecovery (R m) fun _ => false) t).view id =
      { t.view id with recovery := (t.view id).recovery.or ((l.find? (·.messageId = id)).map R) } := by
  induction l with
  | nil => exact fun t => by simp
  | cons m l ih =>
    intro t
    rw [List.foldl_cons, ih, view_upsertRecovery, List.find?_cons, hR]
    by_cases hid : m.messageId = id
    · cases hold : (t.view id).recovery <;> simp [hid, upserted]
    · simp [hid, Ne.symm hid]

theorem find?_filter_messages (p : Message → Bool) : (s.messages.rows.filter p).find? (·.messageId = id) = (s.message id).filter p := by
  cases hm : s.message id with
  | none =>
    rw [Store.message, List.find?_eq_none] at hm
    rw [Option.filter_none, List.find?_eq_none]
    exact fun m h => hm m (List.mem_of_mem_filter h)
  | some m =>
    rw [Option.filter_some]
    split
    · next hp =>
      have hmem : m ∈ s.messages.rows.filter p := List.mem_filter.2 ⟨List.mem_of_find?_eq_some hm, hp⟩
      obtain ⟨m', hm'⟩ : ∃ m', (s.messages.rows.filter p).find? (·.messageId = id) = some m' :=
        Option.isSome_iff_exists.1 (List.find?_isSome.2 ⟨m, hmem, by simpa using message_id hm⟩)
      have hid : m'.messageId = id := by simpa using List.find?_some hm'
      have hsame := message_of_mem (List.mem_of_mem_filter (List.mem_of_find?_eq_some hm'))
      rw [hid, hm] at hsame
      rw [hm', hsame]
    · next hp =>
      rw [List.find?_eq_none]
      intro m' hm' hid
      have hsame := message_of_mem (List.mem_of_mem_filter hm')
      rw [show m'.messageId = id by simpa using hid, hm] at hsame
      cases hsame
      exact hp (List.mem_filter.1 hm').2

/-- The messages in process that are not waiting are interrupted, each with its recovery. -/
theorem view_interrupt (id : Text) (now : Int) (t : Store) :
    (((t.messages.rows.filter fun m => (m.processingStatus = processing && !t.isWaiting m.messageId) && m.hasMedia).foldl
      (fun u m => u.upsertRecovery (t.recoveryOf m now) fun _ => false) t).setStatus
        (fun m => m.processingStatus = processing && !t.isWaiting m.messageId) "interrupted".toList).view id =
      { t.view id with
        message := ((t.view id).interrupted now).message
        recovery := ((t.view id).interrupted now).recovery } := by
  have hfold := view_foldl_upsert id (fun m => (rfl : (t.recoveryOf m now).providerMessageId = m.messageId))
    (t.messages.rows.filter fun m => (m.processingStatus = processing && !t.isWaiting m.messageId) && m.hasMedia) t
  rw [view_setStatus, hfold, find?_filter_messages]
  simp only [View.interrupted]
  congr 1
  · refine Option.map_congr fun m hm => ?_
    rw [message_id hm]
    rfl
  · congr 1
    cases hm : t.message id with
    | none => simp only [show (t.view id).message = none from hm, Option.filter_none, Option.map_none]
    | some m =>
      have hid := message_id hm
      have hrecovery : t.recoveryOf m now = (t.view id).interruption m now := by
        simp only [Store.recoveryOf, View.interruption, hid]
        rfl
      have hwaiting : t.isWaiting m.messageId = (t.view id).job.any (·.state.isWaiting) := by rw [hid]; rfl
      simp only [show (t.view id).message = some m from hm, View.isInterrupted, hwaiting, Option.filter_some]
      split
      · rw [Option.map_some, Option.map_some, hrecovery]
      · rfl

/-- The messages in process that were answered are replied. -/
theorem view_reply (s : Store) :
    ((s.setStatus (fun m => m.processingStatus = processing && s.isAnswered m.messageId) "replied".toList).updateAudits
      (fun a => a.lifecycleState = "forwarded".toList &&
        (s.setStatus (fun m => m.processingStatus = processing && s.isAnswered m.messageId) "replied".toList).isAnswered
          a.providerMessageId)
      (fun a => { a with lifecycleState := "replied".toList, updatedAt := now }) fun _ => rfl).view id =
      (s.view id).replied now := by
  rw [view_updateAudits, view_setStatus]
  simp only [View.replied]
  congr 1
  · refine Option.map_congr fun m hm => ?_
    rw [message_id hm]
    rfl
  · refine Option.map_congr fun a ha => ?_
    have hanswered : s.isAnswered a.providerMessageId = a.isAnswered := by
      rw [channelAudit_id ha]
      show (s.view id).audit.any _ = _
      rw [ha]
      rfl
    show (if (decide (a.lifecycleState = "forwarded".toList) && s.isAnswered a.providerMessageId) = true then _ else _) = _
    rw [hanswered]

theorem view_recoverMessages : (s.recoverMessages now).view id = ((s.view id).replied now).interrupted now := by
  rw [← view_reply, Store.recoverMessages]
  generalize (s.setStatus (fun m => m.processingStatus = processing && s.isAnswered m.messageId) "replied".toList).updateAudits
    _ _ _ = t
  rw [view_updateAudits, view_interrupt]
  simp only [View.interrupted]
  congr 1
  refine Option.map_congr fun a ha => ?_
  have hinterrupted := congrArg View.message (view_interrupt id now t)
  rw [channelAudit_id ha]
  show (if (decide (a.lifecycleState = "forwarded".toList) && Option.any _ (Store.message _ id)) = true then _ else _) = _
  rw [show Store.message _ id = _ from hinterrupted]
  rfl

/-- **What the opening does to a message.** -/
def View.reopened (v : View) (intent : Bool) (now : Int) : View :=
  (({ v with job := v.job.map (recoveredJob (v.audit.bind (·.replyText)) now) }.unclaimed intent now).replied now).interrupted now

theorem view_reopen : (s.reopen now).view id = (s.view id).reopened (s.hasIntent id) now := by
  rw [Store.reopen, view_recoverMessages, view_recoverClaims]
  have hcoalescing : ∀ t : Store, (t.recoverCoalescing now).view id = t.view id := fun _ => rfl
  rw [hcoalescing, view_recoverJobs]
  rfl

end Zenod.WhatsApp
