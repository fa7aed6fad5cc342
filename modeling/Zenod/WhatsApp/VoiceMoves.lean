/-
What an operation of the channel store can do to one message (`exec_moves`).
-/
import Zenod.WhatsApp.VoiceView
import Mathlib.Data.List.Count

namespace Zenod.WhatsApp

open Keyed Text

/-- One thing is done to a message, or none. -/
inductive Moves : View → View → Prop
  | idle (v : View) : Moves v v
  | recorded {v : View} (m : Message) (h : v.message = none) : Moves v { v with message := some m }
  | created {v : View} (m : Message) (j : VoiceJob) (hmessage : v.message = some m) (hmedia : m.hasMedia = true)
      (hstatus : m.processingStatus = processing) (hjob : v.job = none) (hstate : j.state.isWaiting = true) :
      Moves v { v with job := some j }
  | stepped {v : View} (j j' : VoiceJob) (hjob : v.job = some j) (hstate : j.state.isWaiting = true) (hstate' : j'.state.isWaiting = true) :
      Moves v { v with job := some j' }
  | cancelled {v : View} (j j' : VoiceJob) (hjob : v.job = some j) (hstate : j.state.isCancellable = true) (hstate' : j'.state = .cancelled) :
      Moves v { v with
        job := some j', message := v.message.map fun m => { m with processingStatus := "cancelled".toList } }
  | handedOff {v : View} (j j' : VoiceJob) (hjob : v.job = some j) (hstate : j.state = .transcribed) (hstate' : j'.state = .forwarding) :
      Moves v { v with job := some j', handoffs := v.handoffs + 1 }
  | forwarded {v : View} (a : ChannelAudit) (h : a.outboundProviderId = v.audit.bind (·.outboundProviderId)) :
      Moves v { v with audit := some a }
  | answered {v : View} (j j' : VoiceJob) (r : Recovery) (hjob : v.job = some j) (hstate : j.state = .forwarding)
      (hstate' : j'.state = .replyReady)
      (hrecovery : (∀ old, v.recovery = some old → old.kind = .interruptedFailure) →
        r.kind = .forwardedReply ∧ j'.replyText = some r.replyText) :
      Moves v { v with job := some j', recovery := some r, answered := v.answered + 1 }
  | failed {v : View} (j j' : VoiceJob) (r : Recovery) (hjob : v.job = some j) (hstate : j.state.isSettled = false)
      (hstate' : j'.state = .failed ∨ j'.state = .ringOutcomeUnknown) : Moves v { v with job := some j', recovery := some r }
  | deferred {v : View} (j j' : VoiceJob) (r : Recovery) (hjob : v.job = some j) (hstate : j.state = .forwarding)
      (hstate' : j'.state = .captureRetryPending) (hrecovery : r.kind = .interruptedFailure) :
      Moves v { v with job := some j', recovery := some r, deferred := v.deferred + 1 }
  | resumed {v : View} (j j' : VoiceJob) (hjob : v.job = some j) (hstate : j.state = .captureRetryPending)
      (hstate' : j'.state = .transcribed) : Moves v { v with job := some j', resumed := v.resumed + 1 }
  | claimed {v : View} (r r' : Recovery) (hrecovery : v.recovery = some r) (hkind : r'.kind = r.kind) (htext : r'.replyText = r.replyText) :
      Moves v { v with recovery := some r', claimed := true }
  | completed {v : View} (job : Option VoiceJob) (status : Text) (audit : Option ChannelAudit) (recovery : Option Recovery)
      (hclaimed : v.claimed = true)
      (hjob : job = v.job ∨ ∃ j j', v.job = some j ∧ job = some j' ∧ j.state = .replyReady ∧ j'.state = .completed)
      (hstatus : status ≠ processing)
      (hrecovery : recovery.map (fun r => (r.kind, r.replyText)) = v.recovery.map fun r => (r.kind, r.replyText)) :
      Moves v { v with
        job := job, message := v.message.map fun m => { m with processingStatus := status }, audit := audit, recovery := recovery }
  | reopened (v : View) (intent : Bool) (now : Int) : Moves v (v.reopened intent now)

variable {s : Store} {op : Op} {id target : Text} {now : Int} {v v' : View} {j : VoiceJob}

/-- What a caller of an operation sees to: a job is made for a recorded message with media that is in process, and a recovery
that is completed was claimed. -/
def Proper (s : Store) : Op → Prop
  | .createVoiceJob job => job.state.isWaiting = true ∧
      ((s.message job.providerMessageId).any fun m => m.hasMedia && m.processingStatus = processing) = true
  | .completeInterruptedMediaRecovery claim _ _ => claim ∈ s.claims
  | _ => True

/-! ## Updates of one message -/

/-- Where a job is in one of the states, its update is that of its message. -/
theorem view_updateJob (P : VoiceJob → Bool) (f : VoiceJob → VoiceJob) (hf) (hjob : (s.view id).job = some j) (hP : P j = true) :
    (s.updateJobs (fun j => j.providerMessageId = id && P j) f hf).view id = { s.view id with job := some (f j) } := by
  rw [view_updateJobs, hjob, Option.map_some, voiceJob_id hjob]
  simp only [decide_true, Bool.true_and, if_pos hP]

theorem view_updateJob_none (P : VoiceJob → Bool) (f : VoiceJob → VoiceJob) (hf)
    (h : ∀ j, (s.view id).job = some j → id = target → P j = false) :
    (s.updateJobs (fun j => j.providerMessageId = target && P j) f hf).view id = s.view id := by
  rw [view_updateJobs]
  cases hjob : (s.view id).job with
  | none => rw [Option.map_none, ← hjob]
  | some j =>
    have hid : j.providerMessageId = id := voiceJob_id hjob
    have hnot : ¬ (decide (j.providerMessageId = target) && P j) = true := by
      simp only [Bool.and_eq_true, decide_eq_true_eq, hid]
      exact fun ⟨htarget, hP⟩ => absurd (h j hjob htarget) (by rw [hP]; exact Bool.noConfusion)
    rw [Option.map_some, if_neg hnot, ← hjob]

/-- An update of a job in some states is that of its message, or none. -/
theorem update_cases (s : Store) (id target : Text) (P : VoiceJob → Bool) (f : VoiceJob → VoiceJob) (hf) :
    (s.updateJobs (fun j => j.providerMessageId = target && P j) f hf).view id = s.view id ∨
      ∃ j, (s.view id).job = some j ∧ P j = true ∧
        (s.updateJobs (fun j => j.providerMessageId = target && P j) f hf).view id = { s.view id with job := some (f j) } := by
  by_cases h : ∃ j, (s.view id).job = some j ∧ id = target ∧ P j = true
  · obtain ⟨j, hjob, rfl, hP⟩ := h
    exact Or.inr ⟨j, hjob, hP, view_updateJob P f hf hjob hP⟩
  · refine Or.inl (view_updateJob_none P f hf fun j hjob hid => ?_)
    rw [Bool.eq_false_iff]
    exact fun hP => h ⟨j, hjob, hid, hP⟩

theorem isIn_iff {P : VoiceJobState → Bool} : s.isIn id P = true ↔ ∃ j, (s.view id).job = some j ∧ P j.state = true :=
  Option.any_eq_true _ _

theorem view_log (l : List VoiceEvent) : ({ s with log := s.log ++ l } : Store).view id =
    { s.view id with
      handoffs := (s.view id).handoffs + l.count (.handoff id), answered := (s.view id).answered + l.count (.answered id)
      deferred := (s.view id).deferred + l.count (.deferred id), resumed := (s.view id).resumed + l.count (.resumed id) } := by
  simp only [Store.view, List.count_append]
  rfl

/-! ## Operations -/

theorem view_insertMessage {m : Message} {messages : Table Message} (h : s.messages.insert? m = some messages) :
    ({ s with messages := messages } : Store).view id =
      { s.view id with message := (s.view id).message.or (if m.messageId = id then some m else none) } := by
  refine congrArg (fun message => ({ s.view id with message := message } : View)) ((Table.find?_insert? h _).trans ?_)
  simp only [decide_eq_true_eq]
  rfl

theorem moves_recordMessage (m : Message) : Moves (s.view id) ((s.recordMessage m).view id) := by
  unfold Store.recordMessage
  split
  · exact .idle _
  · next messages h =>
    rw [view_insertMessage h]
    cases hm : (s.view id).message with
    | some m' =>
      rw [Option.some_or, ← hm]
      exact .idle _
    | none =>
      rw [Option.none_or]
      split
      · exact .recorded m hm
      · rw [← hm]
        exact .idle _

theorem view_insertJob {job : VoiceJob} {jobs : Table VoiceJob} (h : s.jobs.insert? job = some jobs) :
    ({ s with jobs := jobs } : Store).view id =
      { s.view id with job := (s.view id).job.or (if job.providerMessageId = id then some job else none) } := by
  refine congrArg (fun job => ({ s.view id with job := job } : View)) ((Table.find?_insert? h _).trans ?_)
  simp only [decide_eq_true_eq]
  rfl

theorem moves_createVoiceJob (job : VoiceJob) (h : Proper s (.createVoiceJob job)) :
    Moves (s.view id) ((s.createVoiceJob job).view id) := by
  obtain ⟨hstate, hmessage⟩ := h
  obtain ⟨m, hm, hproper⟩ := (Option.any_eq_true _ _).1 hmessage
  obtain ⟨hmedia, hstatus⟩ := by simpa only [Bool.and_eq_true, decide_eq_true_eq] using hproper
  unfold Store.createVoiceJob
  split
  · exact .idle _
  · next jobs h =>
    rw [view_insertJob h]
    cases hj : (s.view id).job with
    | some j =>
      rw [Option.some_or, ← hj]
      exact .idle _
    | none =>
      rw [Option.none_or]
      split
      · next hid =>
        rw [hid] at hm
        exact .created m job hm hmedia hstatus hj hstate
      · rw [← hj]
        exact .idle _

theorem moves_claimNextVoiceJob (lastTenantId : Option Text) (now : Int) :
    Moves (s.view id) ((s.claimNextVoiceJob lastTenantId now).2.view id) := by
  unfold Store.claimNextVoiceJob
  split
  · exact .idle _
  · next job _ =>
    split
    · exact .idle _
    · simp only
      rcases update_cases s id job.providerMessageId (fun j => decide (j.state = .queued))
        (fun j => { j with state := .transcribing, attempts := j.attempts + 1, updatedAt := now }) (fun _ => rfl) with
        hview | ⟨j, hjob, hstate, hview⟩
      · rw [hview]
        exact .idle _
      · rw [hview]
        exact .stepped j _ hjob (by rw [of_decide_eq_true hstate]; rfl) rfl

theorem mem_latestVoiceJob {tenantId conversationKey : Text} {states : VoiceJobState → Bool}
    (h : s.latestVoiceJob tenantId conversationKey states = some j) : j ∈ s.jobs.rows ∧ states j.state = true := by
  have hmem := List.mem_of_mem_head? h
  rw [List.mem_insertionSort, List.mem_filter] at hmem
  simp only [Bool.and_eq_true] at hmem
  exact ⟨hmem.1, hmem.2.2⟩

theorem moves_confirmLatestVoiceJob (tenantId conversationKey : Text) (now : Int) :
    Moves (s.view id) ((s.confirmLatestVoiceJob tenantId conversationKey now).view id) := by
  unfold Store.confirmLatestVoiceJob
  split
  · exact .idle _
  · next job _ =>
    unfold Store.moveJob
    rcases update_cases s id job.providerMessageId (fun j => decide (j.state = .awaitingConfirmation))
      (fun j => { j with state := .queued, updatedAt := now }) (fun _ => rfl) with hview | ⟨j, hjob, hstate, hview⟩
    · rw [hview]
      exact .idle _
    · rw [hview]
      exact .stepped j _ hjob (by rw [of_decide_eq_true hstate]; rfl) rfl

/-- A status set for another message. -/
theorem view_setStatus_other (hid : id ≠ target) (status : Text) :
    (s.setStatus (fun m => m.messageId = target) status).view id = s.view id := by
  rw [view_setStatus]
  cases hm : (s.view id).message with
  | none => rw [Option.map_none, ← hm]
  | some m =>
    have hne : ¬ decide (m.messageId = target) = true := by rw [message_id hm]; simpa using hid
    rw [Option.map_some, if_neg hne, ← hm]

theorem view_setStatus_self (status : Text) : (s.setStatus (fun m => m.messageId = id) status).view id =
    { s.view id with message := (s.view id).message.map fun m => { m with processingStatus := status } } := by
  rw [view_setStatus]
  refine congrArg (fun message => ({ s.view id with message := message } : View)) (Option.map_congr fun m hm => ?_)
  rw [if_pos (by simpa using message_id hm)]

theorem moves_cancelLatestVoiceJob (tenantId conversationKey : Text) (now : Int) :
    Moves (s.view id) ((s.cancelLatestVoiceJob tenantId conversationKey now).view id) := by
  unfold Store.cancelLatestVoiceJob
  split
  · exact .idle _
  · next job hlatest =>
    obtain ⟨hmem, hstate⟩ := mem_latestVoiceJob hlatest
    rw [view_settle]
    unfold Store.moveJob
    by_cases hid : id = job.providerMessageId
    · subst hid
      have hjob : (s.view job.providerMessageId).job = some job := voiceJob_of_mem hmem
      rw [view_setStatus_self, view_updateJob _ _ _ hjob hstate]
      exact .cancelled job _ hjob hstate rfl
    · rw [view_setStatus_other hid, view_updateJob_none _ _ _ fun _ _ h => absurd h hid]
      exact .idle _

theorem moves_persistVoiceTranscript (target transcription : Text) (now : Int) :
    Moves (s.view id) ((s.persistVoiceTranscript target transcription now).view id) := by
  unfold Store.persistVoiceTranscript
  rcases update_cases s id target (fun j => decide (j.state = .transcribing))
    (fun j => { j with
      state := .transcribed, transcription := some (.inl transcription), errorText := none, failure := {}, updatedAt := now })
    (fun _ => rfl) with hview | ⟨j, hjob, hstate, hview⟩
  · rw [hview]
    exact .idle _
  · rw [hview]
    exact .stepped j _ hjob (by rw [of_decide_eq_true hstate]; rfl) rfl

theorem moves_requeueInterruptedVoiceJob (target : Text) (now : Int) :
    Moves (s.view id) ((s.requeueInterruptedVoiceJob target now).view id) := by
  unfold Store.requeueInterruptedVoiceJob
  rcases update_cases s id target (fun j => decide (j.state = .transcribing))
    (fun j => { j with state := .queued, errorText := none, updatedAt := now }) (fun _ => rfl) with
    hview | ⟨j, hjob, hstate, hview⟩
  · rw [hview]
    exact .idle _
  · rw [hview]
    exact .stepped j _ hjob (by rw [of_decide_eq_true hstate]; rfl) rfl

theorem moves_claimVoiceRingHandoff (target : Text) (now : Int) :
    Moves (s.view id) ((s.claimVoiceRingHandoff target now).2.view id) := by
  unfold Store.claimVoiceRingHandoff
  split
  · next hin =>
    show Moves _ (({ s.moveJob target _ .forwarding now with
      log := (s.moveJob target (· = .transcribed) .forwarding now).log ++ [VoiceEvent.handoff target] } : Store).view id)
    rw [view_log]
    unfold Store.moveJob
    by_cases hid : id = target
    · subst hid
      obtain ⟨j, hjob, hstate⟩ := isIn_iff.1 hin
      rw [view_updateJob _ _ _ hjob hstate]
      simp only [List.count_singleton, beq_self_eq_true, if_true, reduceCtorEq, beq_iff_eq, if_false, Nat.add_zero]
      exact .handedOff j _ hjob (of_decide_eq_true hstate) rfl
    · rw [view_updateJob_none _ _ _ fun _ _ h => absurd h hid]
      simp only [List.count_singleton, beq_iff_eq, VoiceEvent.handoff.injEq, Ne.symm hid, reduceCtorEq, if_false, Nat.add_zero]
      exact .idle _
  · exact .idle _

/-- A handoff that is answered, failed or deferred: the job moves, the recovery is set, and the outcome of its media. -/
theorem view_finish (P : VoiceJob → Bool) (f : VoiceJob → VoiceJob) (hf) (hjob : (s.view id).job = some j) (hP : P j = true)
    (r : Recovery) (hr : r.providerMessageId = id) (p : Recovery → Bool) :
    ((s.updateJobs (fun j => j.providerMessageId = id && P j) f hf).upsertRecovery r p).view id =
      { s.view id with job := some (f j), recovery := some (upserted r p (s.view id).recovery) } := by
  rw [view_upsertRecovery, view_updateJob P f hf hjob hP, if_pos hr.symm]

theorem view_finish_other (hid : id ≠ target) (P : VoiceJob → Bool) (f : VoiceJob → VoiceJob) (hf) (r : Recovery)
    (hr : r.providerMessageId = target) (p : Recovery → Bool) :
    ((s.updateJobs (fun j => j.providerMessageId = target && P j) f hf).upsertRecovery r p).view id = s.view id := by
  rw [view_upsertRecovery, view_updateJob_none P f hf fun _ _ h => absurd h hid, if_neg (by rw [hr]; exact hid)]

theorem moves_completeVoiceRingHandoff (target replyText : Text) (now : Int) :
    Moves (s.view id) ((s.completeVoiceRingHandoff target replyText now).view id) := by
  unfold Store.completeVoiceRingHandoff
  split
  · exact .idle _
  · next bounded _ =>
    split
    · next hin =>
      rw [view_log]
      by_cases hid : id = target
      · subst hid
        obtain ⟨j, hjob, hstate⟩ := isIn_iff.1 hin
        rw [view_finish _ _ _ hjob hstate _ rfl]
        simp only [List.count_singleton, beq_self_eq_true, if_true, reduceCtorEq, beq_iff_eq, if_false, Nat.add_zero]
        refine .answered j _ _ hjob (of_decide_eq_true hstate) rfl fun hkind => ?_
        cases hold : (s.view id).recovery with
        | none => exact ⟨rfl, rfl⟩
        | some old =>
          have hinterrupted := hkind old hold
          simp only [upserted, hinterrupted, decide_true, if_true]
          exact ⟨rfl, rfl⟩
      · rw [view_finish_other hid _ _ _ _ rfl]
        simp only [List.count_singleton, beq_iff_eq, VoiceEvent.answered.injEq, Ne.symm hid, reduceCtorEq, if_false, Nat.add_zero]
        exact .idle _
    · exact .idle _

theorem moves_queueVoiceFailureReply (target replyText : Text) (failure : Option VoiceFailureDetail) (now : Int) :
    Moves (s.view id) ((s.queueVoiceFailureReply target replyText failure now).view id) := by
  unfold Store.queueVoiceFailureReply
  split
  · exact .idle _
  · next bounded _ =>
    split
    · next hin =>
      simp only [view_settle]
      by_cases hid : id = target
      · subst hid
        obtain ⟨j, hjob, hstate⟩ := isIn_iff.1 hin
        rw [view_finish _ _ _ hjob hstate _ rfl]
        exact .failed j _ _ hjob (by simpa using hstate) (Or.inl rfl)
      · rw [view_finish_other hid _ _ _ _ rfl]
        exact .idle _
    · exact .idle _

theorem moves_markVoiceRingOutcomeUnknown (target : Text) (now : Int) :
    Moves (s.view id) ((s.markVoiceRingOutcomeUnknown target now).view id) := by
  unfold Store.markVoiceRingOutcomeUnknown
  split
  · next hin =>
    simp only [view_settle]
    by_cases hid : id = target
    · subst hid
      obtain ⟨j, hjob, hstate⟩ := isIn_iff.1 hin
      rw [view_finish _ _ _ hjob hstate _ rfl]
      exact .failed j _ _ hjob (by rw [of_decide_eq_true hstate]; rfl) (Or.inr rfl)
    · rw [view_finish_other hid _ _ _ _ rfl]
      exact .idle _
  · exact .idle _

theorem moves_deferIdempotentVoiceCapture (target replyText : Text) (now : Int) :
    Moves (s.view id) ((s.deferIdempotentVoiceCapture target replyText now).view id) := by
  unfold Store.deferIdempotentVoiceCapture
  split
  · exact .idle _
  · next bounded _ =>
    split
    · next hin =>
      rw [view_log, view_settle]
      by_cases hid : id = target
      · subst hid
        obtain ⟨j, hjob, hstate⟩ := isIn_iff.1 hin
        rw [view_finish _ _ _ hjob hstate _ rfl]
        simp only [List.count_singleton, beq_self_eq_true, if_true, reduceCtorEq, beq_iff_eq, if_false, Nat.add_zero]
        refine .deferred j _ _ hjob (of_decide_eq_true hstate) rfl ?_
        cases (s.view id).recovery <;> rfl
      · rw [view_finish_other hid _ _ _ _ rfl]
        simp only [List.count_singleton, beq_iff_eq, VoiceEvent.deferred.injEq, Ne.symm hid, reduceCtorEq, if_false, Nat.add_zero]
        exact .idle _
    · exact .idle _

/-! ## Captures that are resumed -/

theorem mem_deferredCaptures {tenantId : Text} : id ∈ s.deferredCaptures tenantId ↔
    ∃ j, (s.view id).job = some j ∧ j.tenantId = tenantId ∧ j.state = .captureRetryPending := by
  simp only [Store.deferredCaptures, List.mem_map, List.mem_filter, Bool.and_eq_true, decide_eq_true_eq]
  constructor
  · rintro ⟨j, ⟨hmem, htenant, hstate⟩, rfl⟩
    exact ⟨j, voiceJob_of_mem hmem, htenant, hstate⟩
  · rintro ⟨j, hjob, htenant, hstate⟩
    exact ⟨j, ⟨List.mem_of_find?_eq_some hjob, htenant, hstate⟩, voiceJob_id hjob⟩

theorem nodup_deferredCaptures (tenantId : Text) : (s.deferredCaptures tenantId).Nodup := by
  refine List.Pairwise.map _ ?_ (s.jobs.unique.filter _)
  intro a b hab heq
  simp [Keyed.clash, heq] at hab

theorem count_resumed (ids : List Text) (id : Text) : (ids.map VoiceEvent.resumed).count (.resumed id) = ids.count id :=
  List.count_map_of_injective ids VoiceEvent.resumed (fun _ _ h => VoiceEvent.resumed.inj h) id

theorem moves_resumeIdempotentVoiceCaptures (tenantId : Text) (now : Int) :
    Moves (s.view id) ((s.resumeIdempotentVoiceCaptures tenantId now).view id) := by
  have hfold : ∀ (ids : List Text) (t : Store), (ids.foldl (fun s k => s.settle k .processing now) t).view id = t.view id := by
    intro ids
    induction ids with
    | nil => exact fun _ => rfl
    | cons k ids ih => exact fun t => ih _
  have hother : ∀ e : Text → VoiceEvent, (∀ k, VoiceEvent.resumed k ≠ e id) →
      ((s.deferredCaptures tenantId).map VoiceEvent.resumed).count (e id) = 0 := by
    intro e he
    rw [List.count_eq_zero]
    simp only [List.mem_map, not_exists, not_and]
    exact fun k _ => he k
  unfold Store.resumeIdempotentVoiceCaptures
  simp only
  rw [view_log, hfold, view_updateJobs, count_resumed, hother .handoff (by simp), hother .answered (by simp),
    hother .deferred (by simp)]
  simp only [Nat.add_zero]
  by_cases hmem : id ∈ s.deferredCaptures tenantId
  · rw [List.count_eq_one_of_mem (nodup_deferredCaptures tenantId) hmem]
    obtain ⟨j, hjob, htenant, hstate⟩ := mem_deferredCaptures.1 hmem
    rw [hjob]
    simp only [Option.map_some, htenant, hstate, decide_true, Bool.and_true, if_true]
    exact .resumed j _ hjob hstate rfl
  · rw [List.count_eq_zero_of_not_mem hmem]
    cases hjob : (s.view id).job with
    | none =>
      simp only [Option.map_none, Nat.add_zero]
      rw [← hjob]
      exact .idle _
    | some j =>
      have hnot : ¬ (decide (j.tenantId = tenantId) && decide (j.state = .captureRetryPending)) = true := by
        simp only [Bool.and_eq_true, decide_eq_true_eq]
        exact fun h => hmem (mem_deferredCaptures.2 ⟨j, hjob, h⟩)
      simp only [Option.map_some, if_neg hnot, Nat.add_zero]
      rw [← hjob]
      exact .idle _

/-! ## Recoveries and receipts -/

theorem view_insertAudit {a : ChannelAudit} {audits : Table ChannelAudit} (h : s.audits.insert? a = some audits) :
    ({ s with audits := audits } : Store).view id =
      { s.view id with audit := (s.view id).audit.or (if a.providerMessageId = id then some a else none) } := by
  refine congrArg (fun audit => ({ s.view id with audit := audit } : View)) ((Table.find?_insert? h _).trans ?_)
  simp only [decide_eq_true_eq]
  rfl

theorem moves_recordChannelForwarding (target tenantId replyText : Text) (now : Int) :
    Moves (s.view id) ((s.recordChannelForwarding target tenantId replyText now).view id) := by
  unfold Store.recordChannelForwarding
  simp only
  split
  · next audits h =>
    rw [view_insertAudit h]
    cases ha : (s.view id).audit with
    | some a =>
      rw [Option.some_or, ← ha]
      exact .idle _
    | none =>
      rw [Option.none_or]
      split
      · exact .forwarded _ (by rw [ha]; rfl)
      · rw [← ha]
        exact .idle _
  · rw [view_updateAudits]
    cases ha : (s.view id).audit with
    | none =>
      rw [Option.map_none, ← ha]
      exact .idle _
    | some a =>
      rw [Option.map_some]
      split
      · exact .forwarded _ (by rw [ha]; rfl)
      · rw [← ha]
        exact .idle _

theorem mem_pendingRecoveries {r : Recovery} {m : Message} (h : s.pendingRecoveries.head? = some (r, m)) :
    r ∈ s.recoveries.rows ∧ r.state = .pending := by
  have hmem := List.mem_of_mem_head? h
  rw [Store.pendingRecoveries, List.mem_filterMap] at hmem
  obtain ⟨q, hq, hrow⟩ := hmem
  obtain ⟨m', -, hpair⟩ := Option.map_eq_some_iff.1 hrow
  cases hpair
  rw [List.mem_insertionSort, List.mem_filter] at hq
  exact ⟨hq.1, of_decide_eq_true hq.2⟩

theorem moves_claimInterruptedMediaRecovery (now : Int) :
    Moves (s.view id) ((s.claimInterruptedMediaRecovery now).2.view id) := by
  unfold Store.claimInterruptedMediaRecovery
  split
  · exact .idle _
  · next r m hhead =>
    obtain ⟨hmem, hstate⟩ := mem_pendingRecoveries hhead
    simp only
    have hview : ∀ (t : Store) (claim : RecoveryClaim), ({ t with claims := claim :: t.claims } : Store).view id =
        { t.view id with claimed := decide (claim.providerMessageId = id) || (t.view id).claimed } := fun _ _ => rfl
    rw [hview, view_updateRecoveries]
    by_cases hid : r.providerMessageId = id
    · have hr : (s.view id).recovery = some r := hid ▸ mediaRecovery_of_mem hmem
      simp only [hr, Option.map_some, hid, hstate, decide_true, Bool.and_true, if_true, Bool.true_or]
      exact .claimed r _ hr rfl rfl
    · simp only [hid, decide_false, Bool.false_or]
      cases hr : (s.view id).recovery with
      | none =>
        rw [Option.map_none, ← hr]
        exact .idle _
      | some q =>
        have hnot : ¬ (decide (q.providerMessageId = r.providerMessageId) && decide (q.state = .pending)) = true := by
          simp only [Bool.and_eq_true, decide_eq_true_eq, mediaRecovery_id hr]
          exact fun h => hid h.1.symm
        rw [Option.map_some, if_neg hnot, ← hr]
        exact .idle _

/-- An update that does not mean the row. -/
theorem map_other {Row : Type} {row : Option Row} {p : Row → Bool} {f : Row → Row} (h : ∀ r, row = some r → p r = false) :
    (row.map fun r => if p r then f r else r) = row := by
  cases row with
  | none => rfl
  | some r => rw [Option.map_some, h r rfl, if_neg Bool.false_ne_true]

/-- What completing a recovery does to its message's rows. -/
theorem kept_by_update (p : Recovery → Bool) (f : Recovery → Recovery) (hkind : ∀ r, (f r).kind = r.kind)
    (htext : ∀ r, (f r).replyText = r.replyText) (row : Option Recovery) :
    (row.map fun r => if p r then f r else r).map (fun r => (r.kind, r.replyText)) = row.map fun r => (r.kind, r.replyText) := by
  rw [Option.map_map]
  refine Option.map_congr fun r _ => ?_
  simp only [Function.comp_apply]
  split
  · rw [hkind, htext]
  · rfl

theorem view_intents (intents : List OutboundIntent) : ({ s with intents := intents } : Store).view id = s.view id := rfl

theorem moves_completeInterruptedMediaRecovery (claim : RecoveryClaim) (outcome : Store.RecoveryOutcome) (now : Int)
    (h : claim ∈ s.claims) : Moves (s.view id) ((s.completeInterruptedMediaRecovery claim outcome now).view id) := by
  by_cases hid : id = claim.providerMessageId
  · have hclaimed : (s.view id).claimed = true := List.any_eq_true.2 ⟨claim, h, by simp [hid]⟩
    have hmessage : ∀ (t : Store) (status : Text),
        (t.setStatus (fun m => m.messageId = claim.providerMessageId) status).view id =
          { t.view id with message := (t.view id).message.map fun m => { m with processingStatus := status } } := by
      rw [← hid]
      exact fun t status => view_setStatus_self status
    cases outcome with
    | failed error =>
      simp only [Store.completeInterruptedMediaRecovery, view_updateAudits, hmessage, view_updateRecoveries]
      refine .completed _ _ _ _ hclaimed (Or.inl rfl) (by decide) ?_
      refine kept_by_update _ _ ?_ ?_ _ <;> exact fun _ => rfl
    | sent sentMessageId intentId =>
      simp only [Store.completeInterruptedMediaRecovery]
      by_cases hkind : claim.kind = .forwardedReply
      · simp only [if_pos hkind]
        generalize ht : Store.settle _ _ _ _ = t
        have hview := congrArg (Store.view · id) ht
        simp only [view_settle, view_updateAudits, hmessage, view_updateRecoveries, view_intents] at hview
        rcases update_cases t id claim.providerMessageId (fun j => decide (j.state = .replyReady))
          (fun j => { j with state := .completed, updatedAt := now }) (fun _ => rfl) with hjob | ⟨j, hjob, hstate, hmoved⟩
        · unfold Store.moveJob
          rw [hjob, ← hview]
          refine .completed _ _ _ _ hclaimed (Or.inl rfl) (by decide) ?_
          refine kept_by_update _ _ ?_ ?_ _ <;> exact fun _ => rfl
        · unfold Store.moveJob
          rw [← hview] at hjob hmoved
          rw [hmoved]
          refine .completed _ _ _ _ hclaimed (Or.inr ⟨j, _, hjob, rfl, of_decide_eq_true hstate, rfl⟩) (by decide) ?_
          refine kept_by_update _ _ ?_ ?_ _ <;> exact fun _ => rfl
      · simp only [if_neg hkind, view_updateAudits, hmessage, view_updateRecoveries, view_intents]
        refine .completed _ _ _ _ hclaimed (Or.inl rfl) (by decide) ?_
        refine kept_by_update _ _ ?_ ?_ _ <;> exact fun _ => rfl
  · have hsame : (s.completeInterruptedMediaRecovery claim outcome now).view id = s.view id := by
      have hmessage : ∀ (t : Store) (status : Text),
          (t.setStatus (fun m => m.messageId = claim.providerMessageId) status).view id = t.view id :=
        fun t status => view_setStatus_other hid status
      have haudit : ∀ (t : Store) (f : ChannelAudit → ChannelAudit) (hf),
          (t.updateAudits (fun a => a.providerMessageId = claim.providerMessageId) f hf).view id = t.view id := by
        intro t f hf
        rw [view_updateAudits, map_other fun a ha => by rw [channelAudit_id ha]; simpa using hid]
      have hrecovery : ∀ (t : Store) (f : Recovery → Recovery) (hf),
          (t.updateRecoveries (fun r => r.providerMessageId = claim.providerMessageId && r.state = .claimed) f hf).view id =
            t.view id := by
        intro t f hf
        rw [view_updateRecoveries, map_other fun r hr => by rw [mediaRecovery_id hr]; simp [hid]]
      cases outcome with
      | failed error => simp only [Store.completeInterruptedMediaRecovery, haudit, hmessage, hrecovery]
      | sent sentMessageId intentId =>
        simp only [Store.completeInterruptedMediaRecovery]
        by_cases hkind : claim.kind = .forwardedReply
        · simp only [if_pos hkind, Store.moveJob]
          rw [view_updateJob_none _ _ _ fun _ _ h => absurd h hid, view_settle, haudit, hmessage, hrecovery, view_intents]
        · simp only [if_neg hkind, haudit, hmessage, hrecovery, view_intents]
    rw [hsame]
    exact .idle _

/-- **What an operation does to a message.** -/
theorem exec_moves (h : Proper s op) (id : Text) : Moves (s.view id) ((s.exec op).view id) := by
  cases op with
  | recordMessage m => exact moves_recordMessage m
  | createVoiceJob job => exact moves_createVoiceJob job h
  | claimNextVoiceJob lastTenantId now => exact moves_claimNextVoiceJob lastTenantId now
  | confirmLatestVoiceJob tenantId conversationKey now => exact moves_confirmLatestVoiceJob tenantId conversationKey now
  | cancelLatestVoiceJob tenantId conversationKey now => exact moves_cancelLatestVoiceJob tenantId conversationKey now
  | persistVoiceTranscript target transcription now => exact moves_persistVoiceTranscript target transcription now
  | requeueInterruptedVoiceJob target now => exact moves_requeueInterruptedVoiceJob target now
  | claimVoiceRingHandoff target now => exact moves_claimVoiceRingHandoff target now
  | recordChannelForwarding target tenantId replyText now => exact moves_recordChannelForwarding target tenantId replyText now
  | completeVoiceRingHandoff target replyText now => exact moves_completeVoiceRingHandoff target replyText now
  | queueVoiceFailureReply target replyText failure now => exact moves_queueVoiceFailureReply target replyText failure now
  | markVoiceRingOutcomeUnknown target now => exact moves_markVoiceRingOutcomeUnknown target now
  | deferIdempotentVoiceCapture target replyText now => exact moves_deferIdempotentVoiceCapture target replyText now
  | resumeIdempotentVoiceCaptures tenantId now => exact moves_resumeIdempotentVoiceCaptures tenantId now
  | claimInterruptedMediaRecovery now => exact moves_claimInterruptedMediaRecovery now
  | completeInterruptedMediaRecovery claim outcome now => exact moves_completeInterruptedMediaRecovery claim outcome now h
  | claimMediaCoalescing target tenantId channel hash windowMs now =>
    simp only [Store.exec, Store.claimMediaCoalescing]
    split <;> exact .idle _
  | completeMediaCoalescing canonical completed now => exact .idle _
  | writeIntents intents => exact .idle _
  | reopen now =>
    rw [Store.exec, view_reopen]
    exact .reopened _ _ now

end Zenod.WhatsApp
