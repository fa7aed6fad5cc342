/-
Voice jobs over whole runs of the channel store, with restarts in between.

`one_handoff`: a job is handed off once, and once more each time it was
deferred and resumed; what is cancelled, completed or unknown stays so; what
was handed off is cancelled only after it was deferred; and a reply that is
ready has a recovery that carries it, if the handoff was answered or the job
never deferred.
-/
import Zenod.WhatsApp.VoiceMoves

namespace Zenod.WhatsApp

open Keyed Text

variable {s : Store} {op : Op} {id : Text} {v v' : View} {j j' : VoiceJob} {r : Recovery}

/-! ## The invariant of a message -/

/-- The handoffs of a job in a state. -/
def Tallied (v : View) : VoiceJobState → Prop
  | .awaitingConfirmation | .queued | .transcribing | .transcribed =>
    v.handoffs = v.resumed ∧ v.deferred = v.resumed ∧ v.answered = 0
  | .forwarding => v.handoffs = v.resumed + 1 ∧ v.deferred = v.resumed ∧ v.answered = 0
  | .captureRetryPending => v.handoffs = v.resumed + 1 ∧ v.deferred = v.resumed + 1 ∧ v.answered = 0
  | .cancelled => v.handoffs ≤ v.deferred ∧ v.handoffs ≤ v.resumed + 1 ∧ v.answered = 0
  | .failed | .ringOutcomeUnknown => v.handoffs ≤ v.resumed + 1 ∧ v.answered = 0
  | .replyReady | .completed => v.handoffs ≤ v.resumed + 1

/-- What is not answered yet. -/
def VoiceJobState.isOpen (state : VoiceJobState) : Bool := state.isWaiting || state = .forwarding

/-- The recovery carries the reply of a job; one that is made when the store is opened is without the blanks around it. -/
def Carries (v : View) (j : VoiceJob) : Prop :=
  ∃ r, v.recovery = some r ∧ r.kind = .forwardedReply ∧
    (if v.answered = 0 then sqlTrimmed j.replyText else j.replyText) = some r.replyText

/-- A job among the other rows of its message. -/
structure JobSound (v : View) (j : VoiceJob) : Prop where
  counted : Tallied v j.state
  recorded : v.message.isSome = true
  /-- A job that is open and was never deferred has a message in process, and no recovery. -/
  fresh : j.state.isOpen = true → v.deferred = 0 →
    v.recovery = none ∧ ∃ m, v.message = some m ∧ m.hasMedia = true ∧ m.processingStatus = processing
  interrupted : j.state.isOpen = true ∨ j.state = .captureRetryPending → ∀ r, v.recovery = some r → r.kind = .interruptedFailure
  ready : j.state = .replyReady → 0 < v.answered ∨ v.deferred = 0 → Carries v j

/-- The rows of a message. -/
structure Sound (v : View) : Prop where
  recorded : v.recovery.isSome = true → v.message.isSome = true
  claimed : v.claimed = true → v.recovery.isSome = true
  sent : (v.audit.bind (·.outboundProviderId)).isSome = true → v.recovery.isSome = true
  deferred : 0 < v.deferred → v.recovery.isSome = true
  untouched : v.job = none → (∃ m, v.message = some m ∧ m.processingStatus = processing) → v.recovery = none
  unhanded : v.job = none → v.handoffs = 0 ∧ v.answered = 0 ∧ v.deferred = 0 ∧ v.resumed = 0
  job : ∀ j, v.job = some j → JobSound v j

theorem counted_waiting {state : VoiceJobState} (h : state.isWaiting = true) :
    Tallied v state ↔ v.handoffs = v.resumed ∧ v.deferred = v.resumed ∧ v.answered = 0 := by
  cases state <;> first | rfl | cases h

theorem isOpen_of_isWaiting {state : VoiceJobState} (h : state.isWaiting = true) : state.isOpen = true := by
  rw [VoiceJobState.isOpen, h, Bool.true_or]

theorem Tallied.cancellable {state : VoiceJobState} (h : Tallied v state) (hstate : state.isCancellable = true) :
    Tallied v .cancelled := by
  revert hstate h
  cases state <;> simp only [Tallied, VoiceJobState.isCancellable, reduceCtorEq, false_imp_iff, imp_true_iff] <;> omega

theorem Tallied.unsettled {state : VoiceJobState} (h : Tallied v state) (hstate : state.isSettled = false) :
    Tallied v .failed := by
  revert hstate h
  cases state <;> simp only [Tallied, VoiceJobState.isSettled, reduceCtorEq, false_imp_iff, imp_true_iff] <;> omega

/-! ## Moves -/

/-- A move that leaves its message with a job is judged by the job. -/
theorem Sound.of_job (h : Sound v) (hclaimed : v'.claimed = v.claimed) (haudit : v'.audit = v.audit)
    (hrecovery : v.recovery.isSome = true → v'.recovery.isSome = true) (hdeferred : v'.deferred = v.deferred ∨ v'.recovery.isSome = true)
    (hjob : v'.job = some j') (hj : JobSound v' j') : Sound v' where
  recorded _ := hj.recorded
  claimed hc := hrecovery (h.claimed (hclaimed ▸ hc))
  sent hs := hrecovery (h.sent (haudit ▸ hs))
  deferred hd := hdeferred.elim (fun hsame => hrecovery (h.deferred (hsame ▸ hd))) id
  untouched hnone := absurd (hnone.symm.trans hjob) (by simp)
  unhanded hnone := absurd (hnone.symm.trans hjob) (by simp)
  job k hk := by
    obtain rfl : j' = k := Option.some.inj (hjob.symm.trans hk)
    exact hj

/-- A job in a state in which nothing is to be seen to but its handoffs. -/
theorem JobSound.of_closed (hcounted : Tallied v j.state) (hrecorded : v.message.isSome = true)
    (hopen : j.state.isOpen = false) (hpending : j.state ≠ .captureRetryPending) (hready : j.state ≠ .replyReady) :
    JobSound v j where
  counted := hcounted
  recorded := hrecorded
  fresh ho := absurd ho (by rw [hopen]; exact Bool.false_ne_true)
  interrupted ho := absurd ho (by rw [hopen]; simp [hpending])
  ready hr := absurd hr hready

theorem Sound.recorded_move (h : Sound v) (m : Message) (hmessage : v.message = none) : Sound { v with message := some m } := by
  have hrecovery : v.recovery = none := by
    rw [← Option.not_isSome_iff_eq_none]
    intro hsome
    have hrecorded := h.recorded hsome
    simp [hmessage] at hrecorded
  have hjob : v.job = none := by
    rw [Option.eq_none_iff_forall_not_mem]
    intro j hj
    have hrecorded := (h.job j hj).recorded
    simp [hmessage] at hrecorded
  exact ⟨fun _ => rfl, h.claimed, h.sent, h.deferred, fun _ _ => hrecovery, h.unhanded, fun j hj => absurd (hjob.symm.trans hj) (by simp)⟩

theorem Sound.created_move (h : Sound v) {m : Message} (hmessage : v.message = some m) (hmedia : m.hasMedia = true)
    (hstatus : m.processingStatus = processing) (hjob : v.job = none) (hstate : j.state.isWaiting = true) :
    Sound { v with job := some j } := by
  have hrecovery := h.untouched hjob ⟨m, hmessage, hstatus⟩
  obtain ⟨hhandoffs, hanswered, hdeferred, hresumed⟩ := h.unhanded hjob
  refine h.of_job rfl rfl (fun hr => hr) (Or.inl rfl) rfl ⟨?_, by simp [hmessage], fun _ _ => ⟨hrecovery, m, hmessage, hmedia, hstatus⟩,
    fun _ r hr => ?_, fun hready => ?_⟩
  · exact (counted_waiting hstate).2 ⟨hhandoffs.trans hresumed.symm, hdeferred.trans hresumed.symm, hanswered⟩
  · simp [hrecovery] at hr
  · rw [hready] at hstate
    cases hstate

theorem Sound.stepped_move (h : Sound v) (hjob : v.job = some j) (hstate : j.state.isWaiting = true)
    (hstate' : j'.state.isWaiting = true) : Sound { v with job := some j' } := by
  have hj := h.job j hjob
  have hopen := isOpen_of_isWaiting hstate
  refine h.of_job rfl rfl (fun hr => hr) (Or.inl rfl) rfl ⟨?_, hj.recorded, fun _ => hj.fresh hopen, fun _ => hj.interrupted (Or.inl hopen),
    fun hready => ?_⟩
  · exact (counted_waiting hstate').2 ((counted_waiting hstate).1 hj.counted)
  · rw [hready] at hstate'
    cases hstate'

theorem Sound.cancelled_move (h : Sound v) (hjob : v.job = some j) (hstate : j.state.isCancellable = true)
    (hstate' : j'.state = .cancelled) (f : Message → Message) : Sound { v with job := some j', message := v.message.map f } := by
  have hj := h.job j hjob
  refine h.of_job rfl rfl (fun hr => hr) (Or.inl rfl) rfl (.of_closed ?_ ?_ ?_ ?_ ?_)
  · rw [hstate']
    exact hj.counted.cancellable hstate
  · simpa using hj.recorded
  · rw [hstate']
    rfl
  · rw [hstate']
    exact VoiceJobState.noConfusion
  · rw [hstate']
    exact VoiceJobState.noConfusion

theorem Sound.handedOff_move (h : Sound v) (hjob : v.job = some j) (hstate : j.state = .transcribed)
    (hstate' : j'.state = .forwarding) : Sound { v with job := some j', handoffs := v.handoffs + 1 } := by
  have hj := h.job j hjob
  have hopen : j.state.isOpen = true := by rw [hstate]; rfl
  refine h.of_job rfl rfl (fun hr => hr) (Or.inl rfl) rfl ⟨?_, hj.recorded, fun _ => hj.fresh hopen, fun _ => hj.interrupted (Or.inl hopen),
    fun hready => ?_⟩
  · have hcounted := hj.counted
    rw [hstate] at hcounted
    rw [hstate']
    exact ⟨congrArg (· + 1) hcounted.1, hcounted.2⟩
  · rw [hready] at hstate'
    cases hstate'

theorem Sound.answered_move (h : Sound v) (hjob : v.job = some j) (hstate : j.state = .forwarding)
    (hstate' : j'.state = .replyReady)
    (hrecovery : (∀ old, v.recovery = some old → old.kind = .interruptedFailure) →
      r.kind = .forwardedReply ∧ j'.replyText = some r.replyText) :
    Sound { v with job := some j', recovery := some r, answered := v.answered + 1 } := by
  have hj := h.job j hjob
  have hopen : j.state.isOpen = true := by rw [hstate]; rfl
  obtain ⟨hkind, htext⟩ := hrecovery (hj.interrupted (Or.inl hopen))
  have hcounted := hj.counted
  rw [hstate] at hcounted
  refine h.of_job rfl rfl (fun _ => rfl) (Or.inr rfl) rfl ⟨?_, hj.recorded, fun ho => ?_, fun ho => ?_, fun _ _ => ⟨r, rfl, hkind, ?_⟩⟩
  · rw [hstate']
    exact hcounted.1.le
  · rw [hstate'] at ho
    cases ho
  · rw [hstate'] at ho
    simp [VoiceJobState.isOpen, VoiceJobState.isWaiting] at ho
  · rw [if_neg (Nat.succ_ne_zero _), htext]

theorem Sound.failed_move (h : Sound v) (hjob : v.job = some j) (hstate : j.state.isSettled = false)
    (hstate' : j'.state = .failed ∨ j'.state = .ringOutcomeUnknown) : Sound { v with job := some j', recovery := some r } := by
  have hj := h.job j hjob
  have hcounted := hj.counted.unsettled hstate
  refine h.of_job rfl rfl (fun _ => rfl) (Or.inr rfl) rfl (.of_closed ?_ hj.recorded ?_ ?_ ?_)
  · rcases hstate' with hfailed | hunknown
    · rw [hfailed]
      exact hcounted
    · rw [hunknown]
      exact hcounted
  all_goals rcases hstate' with hfailed | hunknown
  · rw [hfailed]
    rfl
  · rw [hunknown]
    rfl
  all_goals simp only [*, ne_eq, reduceCtorEq, not_false_eq_true]

theorem Sound.deferred_move (h : Sound v) (hjob : v.job = some j) (hstate : j.state = .forwarding)
    (hstate' : j'.state = .captureRetryPending) (hkind : r.kind = .interruptedFailure) :
    Sound { v with job := some j', recovery := some r, deferred := v.deferred + 1 } := by
  have hj := h.job j hjob
  have hcounted := hj.counted
  rw [hstate] at hcounted
  refine h.of_job rfl rfl (fun _ => rfl) (Or.inr rfl) rfl ⟨?_, hj.recorded, fun _ hzero => absurd hzero (Nat.succ_ne_zero _), fun _ q hq => ?_,
    fun hready => ?_⟩
  · rw [hstate']
    exact ⟨hcounted.1, congrArg (· + 1) hcounted.2.1, hcounted.2.2⟩
  · rw [← Option.some.inj hq, hkind]
  · rw [hready] at hstate'
    cases hstate'

theorem Sound.resumed_move (h : Sound v) (hjob : v.job = some j) (hstate : j.state = .captureRetryPending)
    (hstate' : j'.state = .transcribed) : Sound { v with job := some j', resumed := v.resumed + 1 } := by
  have hj := h.job j hjob
  have hcounted := hj.counted
  rw [hstate] at hcounted
  refine h.of_job rfl rfl (fun hr => hr) (Or.inl rfl) rfl ⟨?_, hj.recorded, fun _ hzero => ?_, fun _ => hj.interrupted (Or.inr hstate),
    fun hready => ?_⟩
  · rw [hstate']
    exact hcounted
  · -- what is resumed was deferred
    have hdeferred : v.deferred = v.resumed + 1 := hcounted.2.1
    simp only at hzero
    omega
  · rw [hready] at hstate'
    cases hstate'

/-- The kind and the text of a recovery are all that its job needs of it, once it is there. -/
theorem JobSound.of_recovery (hj : JobSound v j) (hsome : v.recovery.isSome = true)
    (hmessage : v.message.isSome = true → v'.message.isSome = true) (hjob : v'.handoffs = v.handoffs ∧ v'.answered = v.answered ∧
      v'.deferred = v.deferred ∧ v'.resumed = v.resumed)
    (hrecovery : v'.recovery.map (fun r => (r.kind, r.replyText)) = v.recovery.map fun r => (r.kind, r.replyText)) :
    JobSound v' j := by
  obtain ⟨hhandoffs, hanswered, hdeferred, hresumed⟩ := hjob
  have hback : ∀ r', v'.recovery = some r' → ∃ r, v.recovery = some r ∧ r'.kind = r.kind ∧ r'.replyText = r.replyText := by
    intro r' hr'
    rw [hr', Option.map_some, eq_comm, Option.map_eq_some_iff] at hrecovery
    obtain ⟨r, hr, hsame⟩ := hrecovery
    obtain ⟨hkind, htext⟩ := Prod.mk.inj hsame
    exact ⟨r, hr, hkind.symm, htext.symm⟩
  have hthere : ∃ r', v'.recovery = some r' := by
    obtain ⟨r, hr⟩ := Option.isSome_iff_exists.1 hsome
    rw [hr, Option.map_some, Option.map_eq_some_iff] at hrecovery
    obtain ⟨r', hr', -⟩ := hrecovery
    exact ⟨r', hr'⟩
  constructor
  · have hcounted := hj.counted
    revert hcounted
    cases j.state <;> simp only [Tallied, hhandoffs, hanswered, hdeferred, hresumed, imp_self]
  · exact hmessage hj.recorded
  · intro hopen hzero
    rw [(hj.fresh hopen (hdeferred ▸ hzero)).1] at hsome
    cases hsome
  · intro hopen r' hr'
    obtain ⟨r, hr, hkind, -⟩ := hback r' hr'
    rw [hkind]
    exact hj.interrupted hopen r hr
  · intro hready hcarried
    rw [hanswered, hdeferred] at hcarried
    obtain ⟨r, hr, hkind, htext⟩ := hj.ready hready hcarried
    obtain ⟨r', hr'⟩ := hthere
    obtain ⟨q, hq, hkind', htext'⟩ := hback r' hr'
    obtain rfl : r = q := Option.some.inj (hr.symm.trans hq)
    exact ⟨r', hr', hkind'.trans hkind, by rw [hanswered, htext', htext]⟩

theorem Sound.claimed_move {r' : Recovery} (h : Sound v) (hr : v.recovery = some r) (hkind : r'.kind = r.kind)
    (htext : r'.replyText = r.replyText) : Sound { v with recovery := some r', claimed := true } := by
  have hsome : v.recovery.isSome = true := by rw [hr]; rfl
  refine ⟨fun _ => h.recorded hsome, fun _ => rfl, fun _ => rfl, fun _ => rfl, fun hnone hm => ?_, h.unhanded, fun j hj => ?_⟩
  · rw [h.untouched hnone hm] at hr
    cases hr
  · refine (h.job j hj).of_recovery hsome (fun hm => hm) ⟨rfl, rfl, rfl, rfl⟩ ?_
    rw [hr, Option.map_some, Option.map_some, hkind, htext]

theorem Sound.completed_move {job : Option VoiceJob} {status : Text} {audit : Option ChannelAudit} {recovery : Option Recovery}
    (h : Sound v) (hclaimed : v.claimed = true)
    (hjob : job = v.job ∨ ∃ j j', v.job = some j ∧ job = some j' ∧ j.state = .replyReady ∧ j'.state = .completed)
    (hstatus : status ≠ processing)
    (hrecovery : recovery.map (fun r => (r.kind, r.replyText)) = v.recovery.map fun r => (r.kind, r.replyText)) :
    Sound { v with
      job := job, message := v.message.map fun m => { m with processingStatus := status }, audit := audit, recovery := recovery } := by
  have hsome := h.claimed hclaimed
  have hsome' : recovery.isSome = true := by
    have hmap := congrArg Option.isSome hrecovery
    simpa only [Option.isSome_map, hsome] using hmap
  refine ⟨fun _ => ?_, fun _ => hsome', fun _ => hsome', fun _ => hsome', fun _ hm => ?_, fun hnone => ?_, fun j hj => ?_⟩
  · simpa using h.recorded hsome
  · obtain ⟨m, hm, hprocessing⟩ := hm
    obtain ⟨m', -, rfl⟩ := Option.map_eq_some_iff.1 hm
    exact absurd hprocessing hstatus
  · rcases hjob with hsame | ⟨-, j', -, hj', -⟩
    · exact h.unhanded (hsame ▸ hnone)
    · exact absurd (hnone.symm.trans hj') (by simp)
  · rcases hjob with hsame | ⟨k, k', hk, hk', hready, hcompleted⟩
    · exact (h.job j (hsame ▸ hj)).of_recovery hsome (fun hm => by simpa using hm) ⟨rfl, rfl, rfl, rfl⟩ hrecovery
    · obtain rfl : k' = j := Option.some.inj (hk'.symm.trans hj)
      have hcounted := (h.job k hk).counted
      rw [hready] at hcounted
      refine .of_closed ?_ ?_ ?_ ?_ ?_
      · rw [hcompleted]
        exact hcounted
      · simpa using h.recorded hsome
      all_goals rw [hcompleted]
      · rfl
      all_goals exact VoiceJobState.noConfusion

/-! ## Opening -/

theorem unclaimed_eq (hrecovery : v.recovery = none) (intent : Bool) (now : Int) : v.unclaimed intent now = v := by
  obtain ⟨message, job, audit, recovery, claimed, handoffs, answered, deferred, resumed⟩ := v
  simp only at hrecovery
  subst hrecovery
  simp only [View.unclaimed, View.uncertain, Option.any_none, Bool.false_and, Bool.false_eq_true, if_false, Option.map_id',
    Option.map_none]

theorem replied_eq (hsent : (v.audit.bind (·.outboundProviderId)).isSome ≠ true) (now : Int) : v.replied now = v := by
  obtain ⟨message, job, audit, recovery, claimed, handoffs, answered, deferred, resumed⟩ := v
  simp only at hsent
  cases audit with
  | none => simp only [View.replied, Option.any_none, Bool.and_false, Bool.false_eq_true, if_false, Option.map_id', Option.map_none]
  | some a =>
    have hanswered : a.isAnswered = false := by
      have hnone : a.outboundProviderId.isSome = false := by simpa using hsent
      rw [ChannelAudit.isAnswered, hnone, Bool.false_and]
    simp only [View.replied, Option.any_some, hanswered, Bool.and_false, Bool.false_eq_true, if_false, Option.map_id',
      Option.map_some]

/-- A message without a recovery that was not answered is only interrupted, if its job does not wait. -/
theorem reopened_fresh (hrecovery : v.recovery = none) (hsent : (v.audit.bind (·.outboundProviderId)).isSome ≠ true)
    (intent : Bool) (now : Int) : v.reopened intent now =
      ({ v with job := v.job.map (recoveredJob (v.audit.bind (·.replyText)) now) } : View).interrupted now := by
  unfold View.reopened
  rw [unclaimed_eq (by exact hrecovery), replied_eq (by exact hsent)]

/-- A recovery that is there stays, with its kind and its text. -/
theorem reopened_recovery (hr : v.recovery = some r) (intent : Bool) (now : Int) :
    (v.reopened intent now).recovery.map (fun r => (r.kind, r.replyText)) = some (r.kind, r.replyText) := by
  simp only [View.reopened, View.interrupted, View.replied, View.unclaimed, hr, Option.map_some, Option.some_or, Option.some.injEq]
  split
  · split <;> rfl
  · rfl

theorem reopened_message_isSome (intent : Bool) (now : Int) :
    (v.reopened intent now).message.isSome = v.message.isSome := by
  simp only [View.reopened, View.interrupted, View.replied, View.unclaimed, Option.isSome_map]

theorem reopened_sent (intent : Bool) (now : Int) :
    (v.reopened intent now).audit.bind (·.outboundProviderId) = v.audit.bind (·.outboundProviderId) := by
  cases ha : v.audit with
  | none => simp only [View.reopened, View.interrupted, View.replied, View.unclaimed, ha, Option.map_none, Option.bind_none]
  | some a =>
    simp only [View.reopened, View.interrupted, View.replied, View.unclaimed, ha, Option.map_some, Option.bind_some]
    repeat' split
    all_goals rfl

/-- What is in process behind the opening is so before, and its job waits. -/
theorem reopened_processing {m : Message} {intent : Bool} {now : Int} (hm : (v.reopened intent now).message = some m)
    (hstatus : m.processingStatus = processing) :
    (v.reopened intent now).job.any (·.state.isWaiting) = true := by
  simp only [View.reopened, View.interrupted] at hm ⊢
  obtain ⟨m', -, rfl⟩ := Option.map_eq_some_iff.1 hm
  by_contra hwaiting
  split at hstatus
  · have hne : "interrupted".toList ≠ processing := by decide
    exact hne hstatus
  · next hnot =>
    simp only [View.isInterrupted, hstatus, decide_true, Bool.true_and, Bool.not_eq_true', Bool.not_eq_false] at hnot
    exact hwaiting hnot

theorem recoveredJob_waiting (hstate : j.state.isWaiting = true) (reply : Option Text) (now : Int) :
    (recoveredJob reply now j).state.isWaiting = true := by
  unfold recoveredJob
  split
  · rfl
  · split
    · next hforwarding =>
      rw [hforwarding] at hstate
      cases hstate
    · exact hstate

theorem recoveredJob_other (hstate : j.state ≠ .transcribing) (hstate' : j.state ≠ .forwarding) (reply : Option Text) (now : Int) :
    recoveredJob reply now j = j := by
  rw [recoveredJob, if_neg hstate, if_neg hstate']

theorem interrupted_not (h : ∀ m, v.isInterrupted m = false) (hrecovery : v.recovery = none) (now : Int) :
    (v.interrupted now).recovery = none ∧ (v.interrupted now).message = v.message := by
  simp only [View.interrupted, h, Bool.false_and, Bool.false_eq_true, if_false, Option.map_id', and_true, hrecovery,
    Option.none_or, Option.map_eq_none_iff, Option.filter_eq_none_iff, not_false_eq_true, imp_true_iff]

theorem interrupted_recovery {m : Message} (hm : v.message = some m) (hmedia : m.hasMedia = true) (hrecovery : v.recovery = none)
    (h : v.isInterrupted m = true) (now : Int) : (v.interrupted now).recovery = some (v.interruption m now) := by
  simp only [View.interrupted, hm, hrecovery, Option.none_or, Option.filter_some, h, hmedia, Bool.and_self, if_true, Option.map_some]

/-- A message without a recovery whose job waits is left alone. -/
theorem reopened_waiting (hrecovery : v.recovery = none) (hsent : (v.audit.bind (·.outboundProviderId)).isSome ≠ true)
    (hjob : v.job = some j) (hstate : j.state.isWaiting = true) (intent : Bool) (now : Int) :
    (v.reopened intent now).recovery = none ∧ (v.reopened intent now).message = v.message := by
  rw [reopened_fresh hrecovery hsent]
  have hnot : ∀ m, ({ v with job := v.job.map (recoveredJob (v.audit.bind (·.replyText)) now) } : View).isInterrupted m = false := by
    intro m
    simp only [View.isInterrupted, hjob, Option.map_some, Option.any_some, recoveredJob_waiting hstate, Bool.not_true,
      Bool.and_false]
  exact interrupted_not hnot hrecovery now

theorem Sound.not_sent (h : Sound v) (hrecovery : v.recovery = none) : (v.audit.bind (·.outboundProviderId)).isSome ≠ true := by
  intro hs
  have hsome := h.sent hs
  simp [hrecovery] at hsome

/-- A job that waits stays sound behind the opening. -/
theorem Sound.reopened_waiting_job (h : Sound v) (hjob : v.job = some j) (hstate : j.state.isWaiting = true) (intent : Bool) (now : Int) :
    JobSound (v.reopened intent now) (recoveredJob (v.audit.bind (·.replyText)) now j) := by
  have hj := h.job j hjob
  have hopen := isOpen_of_isWaiting hstate
  have hstate' := recoveredJob_waiting hstate (v.audit.bind (·.replyText)) now
  have hcounted := (counted_waiting hstate).1 hj.counted
  refine ⟨(counted_waiting hstate').2 hcounted, ?_, fun _ hzero => ?_, fun _ r' hr' => ?_, fun hready => ?_⟩
  · rw [reopened_message_isSome]
    exact hj.recorded
  · obtain ⟨hrecovery, m, hm, hmedia, hprocessing⟩ := hj.fresh hopen hzero
    obtain ⟨hnone, hmessage⟩ := reopened_waiting hrecovery (h.not_sent hrecovery) hjob hstate intent now
    exact ⟨hnone, m, hmessage.trans hm, hmedia, hprocessing⟩
  · cases hr : v.recovery with
    | none =>
      rw [(reopened_waiting hr (h.not_sent hr) hjob hstate intent now).1] at hr'
      cases hr'
    | some r =>
      have hsame := reopened_recovery hr intent now
      rw [hr', Option.map_some, Option.some.injEq, Prod.mk.injEq] at hsame
      rw [hsame.1]
      exact hj.interrupted (Or.inl hopen) r hr
  · rw [hready] at hstate'
    cases hstate'

/-- A job that is forwarding has its reply, or is never tried again. -/
theorem Sound.reopened_forwarding_job (h : Sound v) (hjob : v.job = some j) (hstate : j.state = .forwarding) (intent : Bool) (now : Int) :
    JobSound (v.reopened intent now) (recoveredJob (v.audit.bind (·.replyText)) now j) := by
  have hj := h.job j hjob
  have hcounted := hj.counted
  rw [hstate] at hcounted
  have hrecorded : (v.reopened intent now).message.isSome = true := by
    rw [reopened_message_isSome]
    exact hj.recorded
  unfold recoveredJob
  rw [if_neg (by rw [hstate]; exact VoiceJobState.noConfusion), if_pos hstate]
  split
  · next hreply =>
    refine ⟨hcounted.1.le, hrecorded, fun ho => ?_, fun ho => ?_, fun _ hcarried => ?_⟩
    · cases ho
    · simp [VoiceJobState.isOpen, VoiceJobState.isWaiting] at ho
    · have hzero : v.deferred = 0 := hcarried.elim (fun hpos => absurd hcounted.2.2 hpos.ne') id
      obtain ⟨hrecovery, m, hm, hmedia, hprocessing⟩ := hj.fresh (by rw [hstate]; rfl) hzero
      obtain ⟨reply, hsome⟩ := Option.isSome_iff_exists.1 hreply
      refine ⟨({ v with job := v.job.map (recoveredJob (v.audit.bind (·.replyText)) now) } : View).interruption m now, ?_, ?_, ?_⟩
      · rw [reopened_fresh hrecovery (h.not_sent hrecovery)]
        refine interrupted_recovery (v := { v with job := v.job.map (recoveredJob (v.audit.bind (·.replyText)) now) }) hm hmedia
          hrecovery ?_ now
        simp only [View.isInterrupted, hprocessing, hjob, Option.map_some, Option.any_some, recoveredJob, hstate, hreply, if_true,
          reduceCtorEq, if_false]
        rfl
      · simp only [View.interruption, Store.newRecovery, hreply, if_true]
      · have hanswered : (v.reopened intent now).answered = 0 := hcounted.2.2
        rw [if_pos hanswered]
        simp only [View.interruption, Store.newRecovery, hsome, Option.getD_some]
  · refine .of_closed ⟨hcounted.1.le, hcounted.2.2⟩ hrecorded rfl ?_ ?_ <;> exact VoiceJobState.noConfusion

/-- A job that the opening leaves alone, and that has a recovery or needs none. -/
theorem Sound.reopened_other_job (h : Sound v) (hjob : v.job = some j) (hopen : j.state.isOpen = false) (intent : Bool) (now : Int) :
    JobSound (v.reopened intent now) j := by
  have hj := h.job j hjob
  have hrecorded : (v.reopened intent now).message.isSome = true := by
    rw [reopened_message_isSome]
    exact hj.recorded
  cases hr : v.recovery with
  | some r =>
    refine hj.of_recovery (by rw [hr]; rfl) (fun _ => hrecorded) ⟨rfl, rfl, rfl, rfl⟩ ?_
    rw [reopened_recovery hr, hr, Option.map_some]
  | none =>
    have hdeferred : v.deferred = 0 := by
      by_contra hne
      have hsome := h.deferred (Nat.pos_of_ne_zero hne)
      simp [hr] at hsome
    refine .of_closed ?_ hrecorded hopen (fun hpending => ?_) (fun hready => ?_)
    · have hcounted := hj.counted
      cases hstate : j.state <;> rw [hstate] at hcounted <;> exact hcounted
    · have hcounted := hj.counted
      rw [hpending] at hcounted
      exact absurd (hcounted.2.1.symm.trans hdeferred) (Nat.succ_ne_zero _)
    · obtain ⟨r, hr', -⟩ := hj.ready hready (Or.inr hdeferred)
      rw [hr] at hr'
      cases hr'

theorem Sound.reopened (h : Sound v) (intent : Bool) (now : Int) : Sound (v.reopened intent now) := by
  have hkept : v.recovery.isSome = true → (v.reopened intent now).recovery.isSome = true := by
    intro hsome
    obtain ⟨r, hr⟩ := Option.isSome_iff_exists.1 hsome
    have hmap := congrArg Option.isSome (reopened_recovery hr intent now)
    simpa only [Option.isSome_map, Option.isSome_some] using hmap
  have hjobs : (v.reopened intent now).job = v.job.map (recoveredJob (v.audit.bind (·.replyText)) now) := rfl
  constructor
  · intro hsome
    rw [reopened_message_isSome]
    by_cases hrecovery : v.recovery.isSome = true
    · exact h.recorded hrecovery
    · -- a new recovery is that of a message
      have hnone : v.recovery = none := by simpa using hrecovery
      rw [reopened_fresh hnone (h.not_sent hnone)] at hsome
      simp only [View.interrupted, hnone, Option.none_or, Option.isSome_map] at hsome
      obtain ⟨m, hm⟩ := Option.isSome_iff_exists.1 hsome
      rw [Option.filter_eq_some_iff] at hm
      simp only [hm.1, Option.isSome_some]
  · exact fun hclaimed => hkept (h.claimed hclaimed)
  · intro hsent
    rw [reopened_sent] at hsent
    exact hkept (h.sent hsent)
  · exact fun hdeferred => hkept (h.deferred hdeferred)
  · rintro hnone ⟨m, hm, hstatus⟩
    have hwaiting := reopened_processing hm hstatus
    simp [hnone] at hwaiting
  · intro hnone
    rw [hjobs, Option.map_eq_none_iff] at hnone
    exact h.unhanded hnone
  · intro j' hj'
    rw [hjobs, Option.map_eq_some_iff] at hj'
    obtain ⟨j, hj, rfl⟩ := hj'
    by_cases hwaiting : j.state.isWaiting = true
    · exact h.reopened_waiting_job hj hwaiting intent now
    · by_cases hforwarding : j.state = .forwarding
      · exact h.reopened_forwarding_job hj hforwarding intent now
      · have htranscribing : j.state ≠ .transcribing := by
          intro htranscribing
          rw [htranscribing] at hwaiting
          exact hwaiting rfl
        rw [recoveredJob_other htranscribing hforwarding]
        refine h.reopened_other_job hj ?_ intent now
        simp [VoiceJobState.isOpen, hwaiting, hforwarding]

theorem Sound.move (h : Sound v) (hmove : Moves v v') : Sound v' := by
  cases hmove with
  | idle => exact h
  | recorded m hmessage => exact h.recorded_move m hmessage
  | created m j hmessage hmedia hstatus hjob hstate => exact h.created_move hmessage hmedia hstatus hjob hstate
  | stepped j j' hjob hstate hstate' => exact h.stepped_move hjob hstate hstate'
  | cancelled j j' hjob hstate hstate' => exact h.cancelled_move hjob hstate hstate' _
  | handedOff j j' hjob hstate hstate' => exact h.handedOff_move hjob hstate hstate'
  | forwarded a hsent =>
    refine ⟨h.recorded, h.claimed, fun hs => h.sent ?_, h.deferred, h.untouched, h.unhanded, fun j hj => ?_⟩
    · rw [← hsent]
      exact hs
    · have hsound := h.job j hj
      refine ⟨?_, hsound.recorded, hsound.fresh, hsound.interrupted, hsound.ready⟩
      have hcounted := hsound.counted
      cases hstate : j.state <;> rw [hstate] at hcounted <;> exact hcounted
  | answered j j' r hjob hstate hstate' hrecovery => exact h.answered_move hjob hstate hstate' hrecovery
  | failed j j' r hjob hstate hstate' => exact h.failed_move hjob hstate hstate'
  | deferred j j' r hjob hstate hstate' hkind => exact h.deferred_move hjob hstate hstate' hkind
  | resumed j j' hjob hstate hstate' => exact h.resumed_move hjob hstate hstate'
  | claimed r r' hr hkind htext => exact h.claimed_move hr hkind htext
  | completed job status audit recovery hclaimed hjob hstatus hrecovery =>
    exact h.completed_move hclaimed hjob hstatus hrecovery
  | reopened intent now => exact h.reopened intent now

/-! ## What stays -/

/-- What no operation changes any more. -/
def VoiceJobState.isFinal (state : VoiceJobState) : Bool := state = .cancelled || state = .completed || state = .ringOutcomeUnknown

theorem Moves.final (hmove : Moves v v') (hjob : v.job = some j) (hfinal : j.state.isFinal = true) :
    ∃ j', v'.job = some j' ∧ j'.state = j.state := by
  -- every move of a job starts from a state that is not final
  have hmoved : ∀ {k : VoiceJob} {P : Prop}, v.job = some k → k.state.isFinal = false → P := by
    intro k P hk hnot
    obtain rfl : j = k := Option.some.inj (hjob.symm.trans hk)
    rw [hfinal] at hnot
    cases hnot
  cases hmove with
  | idle | recorded | forwarded | claimed => exact ⟨j, hjob, rfl⟩
  | created m k hmessage hmedia hstatus hnone => exact absurd (hjob.symm.trans hnone) (by simp)
  | stepped k k' hk hstate | cancelled k k' hk hstate | failed k k' r hk hstate =>
    refine hmoved hk ?_
    revert hstate
    cases k.state <;> decide
  | handedOff k k' hk hstate | answered k k' r hk hstate | deferred k k' r hk hstate | resumed k k' hk hstate =>
    refine hmoved hk ?_
    rw [hstate]
    rfl
  | completed job status audit recovery hclaimed hsame =>
    rcases hsame with hsame | ⟨k, k', hk, -, hready, -⟩
    · exact ⟨j, hsame.trans hjob, rfl⟩
    · refine hmoved hk ?_
      rw [hready]
      rfl
  | reopened intent now =>
    refine ⟨recoveredJob (v.audit.bind (·.replyText)) now j, congrArg (Option.map _) hjob, ?_⟩
    rw [recoveredJob_other]
    · intro htranscribing
      rw [htranscribing] at hfinal
      cases hfinal
    · intro hforwarding
      rw [hforwarding] at hfinal
      cases hfinal

/-! ## Runs -/

theorem sound_run {ops : List Op} (h : Along Store.exec Proper ops {}) (id : Text) : Sound ((ops.foldl Store.exec {}).view id) := by
  refine h.invariant (Q := fun s : Store => ∀ id, Sound (s.view id)) (fun s op hproper hs id => (hs id).move (exec_moves hproper id)) ?_ id
  intro id
  constructor <;> intros <;> first | contradiction | exact ⟨rfl, rfl, rfl, rfl⟩ | rfl

theorem final_run {ops : List Op} (h : Along Store.exec Proper ops s) (hjob : s.voiceJob id = some j) (hfinal : j.state.isFinal = true) :
    ∃ j', (ops.foldl Store.exec s).voiceJob id = some j' ∧ j'.state = j.state := by
  refine h.invariant (Q := fun s => ∃ j', s.voiceJob id = some j' ∧ j'.state = j.state) ?_ ⟨j, hjob, rfl⟩
  rintro s op hproper ⟨j', hj', hsame⟩
  obtain ⟨k, hk, hkept⟩ := (exec_moves hproper id).final hj' (by rw [hsame]; exact hfinal)
  exact ⟨k, hk, hkept.trans hsame⟩

/-- **One handoff**: in every run a job is handed off at most once, and once more each time it was deferred and resumed; a
cancelled, completed or unknown job stays so; each handoff of a cancelled job was deferred; and a reply that is ready has its
recovery, where the handoff was answered or the job never deferred. -/
theorem one_handoff (ops : List Op) (h : Along Store.exec Proper ops {}) :
    (∀ id, (ops.foldl Store.exec {}).log.count (.handoff id) ≤ 1 + (ops.foldl Store.exec {}).log.count (.resumed id)) ∧
      (∀ first second, ops = first ++ second → ∀ id j, (first.foldl Store.exec {}).voiceJob id = some j → j.state.isFinal = true →
        ∃ j', (ops.foldl Store.exec {}).voiceJob id = some j' ∧ j'.state = j.state) ∧
      (∀ id j, (ops.foldl Store.exec {}).voiceJob id = some j → j.state = .cancelled →
        (ops.foldl Store.exec {}).log.count (.handoff id) ≤ (ops.foldl Store.exec {}).log.count (.deferred id)) ∧
      (∀ id j, (ops.foldl Store.exec {}).voiceJob id = some j → j.state = .replyReady →
        .answered id ∈ (ops.foldl Store.exec {}).log ∨ .deferred id ∉ (ops.foldl Store.exec {}).log →
        Carries ((ops.foldl Store.exec {}).view id) j) := by
  refine ⟨fun id => ?_, fun first second happend id j hjob hfinal => ?_, fun id j hjob hcancelled => ?_,
    fun id j hjob hready hcarried => ?_⟩
  · have hsound := sound_run h id
    show ((ops.foldl Store.exec {}).view id).handoffs ≤ 1 + ((ops.foldl Store.exec {}).view id).resumed
    cases hjob : ((ops.foldl Store.exec {}).view id).job with
    | none =>
      have hnone := hsound.unhanded hjob
      omega
    | some j =>
      have hcounted := (hsound.job j hjob).counted
      revert hcounted
      cases j.state <;> simp only [Tallied] <;> omega
  · rw [happend] at h ⊢
    rw [List.foldl_append]
    exact final_run (Along.append.1 h).2 hjob hfinal
  · have hcounted := ((sound_run h id).job j hjob).counted
    rw [hcancelled] at hcounted
    exact hcounted.1
  · refine ((sound_run h id).job j hjob).ready hready (hcarried.imp ?_ ?_)
    · exact List.count_pos_iff.2
    · exact List.count_eq_zero_of_not_mem

instance (s : Store) : DecidablePred (Proper s) := fun op => by
  unfold Proper
  split <;> infer_instance

/-- A recording is handed off. -/
def handedOffOnce : List Op := [
  .recordMessage ⟨"m".toList, "c".toList, none, true, processing⟩,
  .createVoiceJob {
    providerMessageId := "m".toList, tenantId := "t".toList, conversationKey := "c".toList, artifactSha256 := "h".toList
    state := .queued, createdAt := 0, updatedAt := 0 },
  .claimNextVoiceJob none 1,
  .persistVoiceTranscript "m".toList "text".toList 2,
  .claimVoiceRingHandoff "m".toList 3]

/-- The process dies behind the receipt of the handoff. -/
def receiptRecovered : List Op :=
  handedOffOnce ++ [Op.recordChannelForwarding "m".toList "t".toList "done".toList 4, Op.reopen 5]

/-- The reply is ready then, and the recovery carries it. -/
theorem receipt_recovered : ∃ j, (receiptRecovered.foldl Store.exec {}).voiceJob "m".toList = some j ∧ j.state = .replyReady ∧
    Carries ((receiptRecovered.foldl Store.exec {}).view "m".toList) j := by
  obtain ⟨-, -, -, hready⟩ := one_handoff receiptRecovered (by decide +kernel)
  have hstate : (((receiptRecovered.foldl Store.exec {}).voiceJob "m".toList).any fun j => j.state = .replyReady) = true := by
    decide +kernel
  obtain ⟨j, hj, hreply⟩ := (Option.any_eq_true _ _).1 hstate
  exact ⟨j, hj, of_decide_eq_true hreply, hready _ j hj (of_decide_eq_true hreply) (Or.inr (by decide +kernel))⟩

/-- A capture that was handed off and deferred can be cancelled. -/
def captureCancelled : List Op :=
  handedOffOnce ++ [Op.deferIdempotentVoiceCapture "m".toList "later".toList 4, Op.cancelLatestVoiceJob "t".toList "c".toList 5]

theorem cancelled_behind_handoff : ¬ ∀ ops, Along Store.exec Proper ops {} → ∀ id j,
    (ops.foldl Store.exec {}).voiceJob id = some j → .handoff id ∈ (ops.foldl Store.exec {}).log → j.state ≠ .cancelled := by
  intro h
  have hstate : (((captureCancelled.foldl Store.exec {}).voiceJob "m".toList).any fun j => j.state = .cancelled) = true := by
    decide +kernel
  obtain ⟨j, hj, hcancelled⟩ := (Option.any_eq_true _ _).1 hstate
  exact h captureCancelled (by decide +kernel) _ j hj (by decide +kernel) (of_decide_eq_true hcancelled)

end Zenod.WhatsApp
