/-
One job and one receipt for a channel capture.

`one_receipt`: over every run of receives, polls, recoveries and deliveries of
one message, the downstream is not called again after a job was accepted, the
job and its receipt stay what they are, and the receipt is delivered at most
once, provided that a poll that comes to a job that is done composes the
receipt that the row holds, and that a receipt that a `receive` has returned is
claimed or recorded before a background delivery comes to it.

What a step can do to the row and to what is observed is `Change`; the
invariant and what is kept of the row are derived from its constructors.
-/
import Mathlib.Data.List.Pairwise
import Mathlib.Logic.Relation
import Zenod.Channels.Captures
import Zenod.Lib.Course

namespace Zenod.Channels

open Text

/-! ## What is promised -/

/-- A later row of the message, for an earlier one. -/
structure PhylaxCaptureJob.Kept (job job' : PhylaxCaptureJob) : Prop where
  jobId : job'.jobId = job.jobId
  receipt : job.state = .done → job'.state = .done ∧ job'.receiptText = job.receiptText ∧ job'.evidenceRef = job.evidenceRef

def Journal.Kept (row row' : Journal) : Prop := ∀ job, row = some job → ∃ job', row' = some job' ∧ job.Kept job'

structure OneReceipt (d : Downstream) (ops : List Op) : Prop where
  called : (run d ops).history.Pairwise fun first later => first = .accepted → later ≠ .called
  kept : ∀ first second, ops = first ++ second → Journal.Kept (run d first).row (run d ops).row
  delivered : (run d ops).history.count .delivered ≤ (run d ops).history.count .paused + 1
  recorded : (run d ops).history.Pairwise fun first later => first = .recorded → later ≠ .delivered
  answered : (run d ops).history.Pairwise fun first later => first = .answered → later ≠ .delivered

/-- A job that is done holds this receipt. -/
def Journal.Agrees (row : Journal) (composed : Option CaptureReceipt) : Prop :=
  ∀ job ∈ row, job.state = .done → ∀ receipt ∈ composed,
    receipt.state = .done ∧ job.receiptText = some receipt.text ∧ job.evidenceRef = receipt.evidenceRef

instance (row : Journal) (composed : Option CaptureReceipt) : Decidable (row.Agrees composed) := by
  unfold Journal.Agrees
  infer_instance

/-- A receipt that has been returned is claimed, or its delivery recorded. -/
def World.Settled (s : World) : Prop :=
  .answered ∈ s.history → ∀ job ∈ s.row, job.deliveredAt = none → job.deliveryCompletedAt ≠ none

instance (s : World) : Decidable s.Settled := by
  unfold World.Settled
  infer_instance

/-- What a poll finds that comes to the result, and what a delivery finds that is to begin. -/
def Fits (d : Downstream) (s : World) (poll : PollAnswer) : Actor → Prop
  | .polling job handoff _ =>
    poll = .final → s.row.Agrees (terminalCaptureReceipt d.unicode d.result job.jobId job.tool handoff)
  | .finishing _ => s.Settled
  | .resuming => s.background = false → s.Settled
  | _ => True

instance (d : Downstream) (s : World) (poll : PollAnswer) (actor : Actor) : Decidable (Fits d s poll actor) := by
  cases actor <;> simp only [Fits] <;> infer_instance

def Meets (d : Downstream) (s : World) : Op → Prop
  | .go i m => ∀ actor ∈ s.actors[i]?, Fits d s m.poll actor
  | _ => True

instance (d : Downstream) (s : World) (op : Op) : Decidable (Meets d s op) := by
  cases op <;> simp only [Meets] <;> infer_instance

/-! ## What a step can do -/

/-- The row, and what has been observed. -/
def World.log (s : World) : Journal × List Observed := (s.row, s.history)

inductive Change (d : Downstream) : Journal × List Observed → Journal × List Observed → Prop
  | called {history} : Change d (none, history) (none, history ++ [.called])
  | accepted {row history} (r : Request) :
    Change d (row, history) (some (row.accepted r d.ticket), history ++ [.accepted])
  | finished {row history} (receipt : CaptureReceipt) (h : row.Agrees (some receipt)) :
    Change d (row, history) (row.terminal receipt, history)
  | answered {row history} : Change d (row, history) (row, history ++ [.answered])
  | claimed {job : PhylaxCaptureJob} {history} (now : Nat) (hdelivered : job.deliveredAt = none)
    (hcompleted : job.deliveryCompletedAt = none) (hanswered : .answered ∉ history) :
    Change d (some job, history) (some { job with deliveredAt := some now }, history ++ [.delivered])
  | paused {row history} : Change d (row, history) (row.releaseDeliveryClaim, history ++ [.paused])
  | recorded {job : PhylaxCaptureJob} {history} (now : Nat) :
    Change d (some job, history)
      (some { job with deliveryCompletedAt := job.deliveryCompletedAt.or (some now) }, history ++ [.recorded])

abbrev Changes (d : Downstream) : Journal × List Observed → Journal × List Observed → Prop :=
  Relation.ReflTransGen (Change d)

namespace World

variable {d : Downstream} {s : World}

@[simp] theorem log_goOn (actor : Actor) : (s.goOn actor).log = s.log := rfl

@[simp] theorem log_leave : s.leave.log = s.log := rfl

theorem record_changes (messageId : Text) (now : Nat) : Changes d s.log (s.record messageId now).log := by
  unfold record Journal.recordReceiptDelivery
  cases hrow : s.row with
  | none => simp only [log, hrow]; exact .refl
  | some job =>
    by_cases h : job.terminal = true ∧ job.shownText ≠ none ∧ trim messageId ≠ []
    · simp only [h, ne_eq, not_false_eq_true, and_self, if_true, log, observe, hrow]
      exact .single (.recorded now)
    · simp only [h, if_false, log, hrow]
      exact .refl

/-- A delivery begins with a claim, behind no receipt that was returned. -/
theorem deliverTerminalReceipt_changes (now : Nat) (h : s.Settled) :
    Changes d s.log (s.deliverTerminalReceipt now).log := by
  unfold deliverTerminalReceipt Journal.claimDelivery
  cases hrow : s.row with
  | none => simp only [log, hrow]; exact .refl
  | some job =>
    dsimp only
    by_cases hfree : job.deliveredAt = none ∧ job.deliveryCompletedAt = none
    · rw [if_pos hfree]
      simp only [log, observe, hrow]
      exact .single (.claimed now hfree.1 hfree.2 fun hanswered => h hanswered job hrow hfree.1 hfree.2)
    · simp only [hfree, if_false, log, hrow]
      exact .refl

@[simp] theorem log_startBackgroundPoll (job : PhylaxCaptureJob) (handoff : Handoff) :
    (s.startBackgroundPoll job handoff).log = s.log := by
  unfold startBackgroundPoll
  split <;> rfl

theorem resume_changes (now : Nat) (h : s.background = false → s.Settled) : Changes d s.log (s.resume now).log := by
  unfold resume
  split
  next => exact .refl
  next job hrow =>
    split
    next => rw [log_startBackgroundPoll]
    next =>
      split
      next hfree => exact deliverTerminalReceipt_changes (s := { s with background := true }) now (h hfree.2)
      next => exact .refl

theorem finishPoll_changes {receipt : CaptureReceipt} {unicode : Unicode} {foreground fails : Bool}
    (h : s.row.Agrees (some receipt)) : Changes d s.log (s.finishPoll receipt unicode foreground fails).log := by
  have hfinished : Changes d s.log (s.row.terminal receipt, s.history) := .single (.finished receipt h)
  unfold finishPoll
  split
  next =>
    dsimp only
    split
    next => exact hfinished.tail .answered
    next => exact hfinished
  next => exact hfinished

theorem look_changes (r : Request) (unicode : Unicode) (fails : Bool) :
    Changes d s.log (s.look r unicode fails).log := by
  unfold look
  split
  next => exact .refl
  next =>
    cases hrow : s.row with
    | none =>
      simp only [log, observe, hrow]
      exact .single .called
    | some job =>
      dsimp only
      split
      next =>
        split
        next => simp only [log, observe, hrow]; exact .single .answered
        next => exact .refl
      next => exact .refl
      next => rw [log_goOn]

theorem step_changes {m : Moment} {actor : Actor} (h : Fits d s m.poll actor) :
    Changes d s.log (s.step d m actor).log := by
  cases actor with
  | arriving r => exact look_changes r d.unicode m.fails
  | calling r =>
    simp only [step]
    split
    next => exact .refl
    next => exact .single (.accepted r)
  | polling job handoff foreground =>
    simp only [step]
    split
    next => rw [log_goOn]
    next =>
      split
      next => split <;> exact .refl
      next => exact .refl
    next hpoll =>
      split
      next => exact .refl
      next receipt hreceipt => exact finishPoll_changes (hreceipt ▸ h hpoll)
  | replied job handoff =>
    simp only [step, log_startBackgroundPoll]
    exact .refl
  | resolving job handoff =>
    simp only [step]
    split <;> exact .refl
  | finishing text => exact deliverTerminalReceipt_changes m.now h
  | delivering =>
    simp only [step]
    split
    next => exact record_changes _ _
    next => exact .single .paused
    next => exact .refl
  | recovering asked =>
    simp only [step]
    split
    next =>
      split
      next => exact record_changes _ _
      next => exact .refl
    next => exact .refl
  | resuming => exact resume_changes m.now h

end World

variable {d : Downstream} {s : World}

/-- Every step is a sequence of changes. -/
theorem exec_changes (op : Op) (h : Meets d s op) : Changes d s.log (exec d s op).log := by
  cases op with
  | receive r => exact .refl
  | resumePendingCaptures => exact .refl
  | record messageId now => exact World.record_changes messageId now
  | restart => exact .refl
  | go i m =>
    simp only [exec]
    split
    next => exact .refl
    next actor hactor =>
      have hfits := h actor hactor
      refine World.step_changes (s := { s with actors := s.actors.eraseIdx i }) ?_
      cases actor <;> exact hfits

/-! ## The invariant -/

/-- What a row counts in the deliveries. -/
def Journal.claims (row : Journal) : Nat := if row.any (·.deliveredAt.isSome) then 1 else 0

structure Sound (d : Downstream) (log : Journal × List Observed) : Prop where
  ticket : ∀ job, log.1 = some job → job.jobId = d.ticket
  held : .accepted ∈ log.2 → log.1 ≠ none
  called : log.2.Pairwise fun first later => first = .accepted → later ≠ .called
  indexed : .recorded ∈ log.2 → ∃ job, log.1 = some job ∧ job.deliveryCompletedAt ≠ none
  recorded : log.2.Pairwise fun first later => first = .recorded → later ≠ .delivered
  answered : log.2.Pairwise fun first later => first = .answered → later ≠ .delivered
  claimed : log.2.count .delivered ≤ log.2.count .paused + log.1.claims

theorem Journal.claims_le (row : Journal) : row.claims ≤ 1 := by
  unfold claims
  split <;> omega

/-- One more observation, that none before it forbids. -/
theorem pairwise_observed {history : List Observed} {e before never : Observed}
    (hhistory : history.Pairwise fun first later => first = before → later ≠ never) (h : e = never → before ∉ history) :
    (history ++ [e]).Pairwise fun first later => first = before → later ≠ never := by
  refine List.pairwise_append.mpr ⟨hhistory, List.pairwise_singleton .., fun first hfirst later hlater => ?_⟩
  obtain rfl := List.mem_singleton.mp hlater
  rintro rfl hnever
  exact h hnever hfirst

/-- What is observed besides deliveries and pauses is not counted. -/
theorem count_observed {history : List Observed} {e e' : Observed} (h : e ≠ e') :
    (history ++ [e]).count e' = history.count e' := by
  rw [List.count_append, List.count_singleton, if_neg (by simpa using h), Nat.add_zero]

theorem Sound.change {log log' : Journal × List Observed} (h : Sound d log) (hchange : Change d log log') :
    Sound d log' := by
  obtain ⟨hticket, hheld, hcalled, hindexed, hrecorded, hanswered, hclaimed⟩ := h
  cases hchange with
  | called =>
    have habsent := fun hmem => hheld hmem rfl
    refine ⟨hticket, by simpa using habsent, pairwise_observed hcalled fun _ => habsent, by simpa using hindexed,
      pairwise_observed hrecorded nofun, pairwise_observed hanswered nofun, ?_⟩
    simpa [count_observed] using hclaimed
  | @accepted row history r =>
    refine ⟨?_, fun _ => Option.some_ne_none _, pairwise_observed hcalled nofun, ?_, pairwise_observed hrecorded nofun,
      pairwise_observed hanswered nofun, ?_⟩
    · intro job hjob
      cases hjob
      cases row <;> rfl
    · intro hmem
      obtain ⟨job, hjob, hcompleted⟩ := hindexed (by simpa using hmem)
      cases hjob
      exact ⟨_, rfl, hcompleted⟩
    · simp only [count_observed, ne_eq, reduceCtorEq, not_false_eq_true] at hclaimed ⊢
      cases row <;> exact hclaimed
  | @finished row history receipt hagrees =>
    refine ⟨?_, ?_, hcalled, ?_, hrecorded, hanswered, ?_⟩
    · intro job hjob
      obtain ⟨old, hold, rfl⟩ := Option.map_eq_some_iff.mp hjob
      exact hticket old hold
    · intro hmem hnone
      exact hheld hmem (Option.map_eq_none_iff.mp hnone)
    · intro hmem
      obtain ⟨job, hjob, hcompleted⟩ := hindexed hmem
      cases hjob
      exact ⟨_, rfl, hcompleted⟩
    · cases row <;> exact hclaimed
  | answered =>
    exact ⟨hticket, by simpa using hheld, pairwise_observed hcalled nofun, by simpa using hindexed,
      pairwise_observed hrecorded nofun, pairwise_observed hanswered nofun, by simpa [count_observed] using hclaimed⟩
  | @claimed job history now hdelivered hcompleted hnot =>
    have hunrecorded : Observed.recorded ∉ history := by
      intro hmem
      obtain ⟨job', hjob', hcompleted'⟩ := hindexed hmem
      cases hjob'
      exact hcompleted' hcompleted
    refine ⟨?_, fun _ => Option.some_ne_none _, pairwise_observed hcalled nofun, ?_,
      pairwise_observed hrecorded fun _ => hunrecorded, pairwise_observed hanswered fun _ => hnot, ?_⟩
    · intro job' hjob'
      cases hjob'
      exact hticket job rfl
    · intro hmem
      exact absurd (by simpa using hmem) hunrecorded
    · -- The claim was free, so the deliveries before it have all been paused.
      simp only [Journal.claims, Option.any_some, hdelivered, Option.isSome_none, Bool.false_eq_true, if_false] at hclaimed
      simp [Journal.claims, List.count_append]
      omega
  | @paused row history =>
    refine ⟨?_, ?_, pairwise_observed hcalled nofun, ?_, pairwise_observed hrecorded nofun,
      pairwise_observed hanswered nofun, ?_⟩
    · intro job hjob
      obtain ⟨old, hold, rfl⟩ := Option.map_eq_some_iff.mp hjob
      have := hticket old hold
      split <;> exact this
    · intro hmem hnone
      exact hheld (by simpa using hmem) (Option.map_eq_none_iff.mp hnone)
    · intro hmem
      obtain ⟨job, hjob, hcompleted⟩ := hindexed (by simpa using hmem)
      cases hjob
      exact ⟨job, congrArg some (if_neg hcompleted), hcompleted⟩
    · -- A pause makes up for the claim that it releases.
      have hbefore := row.claims_le
      have hpaused : (history ++ [Observed.paused]).count .paused = history.count .paused + 1 := by
        simp [List.count_append]
      simp only [count_observed, ne_eq, reduceCtorEq, not_false_eq_true, hpaused]
      dsimp only at hclaimed
      omega
  | @recorded job history now =>
    refine ⟨?_, fun _ => Option.some_ne_none _, pairwise_observed hcalled nofun, ?_, pairwise_observed hrecorded nofun,
      pairwise_observed hanswered nofun, ?_⟩
    · intro job' hjob'
      cases hjob'
      exact hticket job rfl
    · intro _
      refine ⟨_, rfl, ?_⟩
      cases job.deliveryCompletedAt <;> simp
    · simp only [count_observed, ne_eq, reduceCtorEq, not_false_eq_true] at hclaimed ⊢
      exact hclaimed

/-! ## The row -/

theorem Journal.Kept.refl (row : Journal) : Journal.Kept row row := fun job hjob => ⟨job, hjob, rfl, fun h => ⟨h, rfl, rfl⟩⟩

theorem Journal.Kept.trans {row row' row'' : Journal} (h : Journal.Kept row row') (h' : Journal.Kept row' row'') :
    Journal.Kept row row'' := by
  intro job hjob
  obtain ⟨job', hjob', hkept⟩ := h job hjob
  obtain ⟨job'', hjob'', hkept'⟩ := h' job' hjob'
  refine ⟨job'', hjob'', hkept'.jobId.trans hkept.jobId, fun hdone => ?_⟩
  obtain ⟨hdone', htext, href⟩ := hkept.receipt hdone
  obtain ⟨hdone'', htext', href'⟩ := hkept'.receipt hdone'
  exact ⟨hdone'', htext'.trans htext, href'.trans href⟩

/-- An accepted job has its ticket already, and a receipt is that of the job, so a change keeps the row. -/
theorem Journal.Kept.change {log log' : Journal × List Observed} (h : Sound d log) (hchange : Change d log log') :
    Journal.Kept log.1 log'.1 := by
  cases hchange with
  | called => exact .refl _
  | @accepted row history r =>
    intro job hjob
    cases hjob
    exact ⟨_, rfl, (h.ticket job rfl).symm, fun hdone => ⟨if_pos hdone, rfl, rfl⟩⟩
  | @finished row history receipt hagrees =>
    intro job hjob
    cases hjob
    refine ⟨_, rfl, rfl, fun hdone => ?_⟩
    obtain ⟨hstate, htext, href⟩ := hagrees job rfl hdone receipt rfl
    exact ⟨hstate, htext.symm, href.symm⟩
  | answered => exact .refl _
  | claimed =>
    intro job hjob
    cases hjob
    exact ⟨_, rfl, rfl, fun hdone => ⟨hdone, rfl, rfl⟩⟩
  | paused =>
    intro job hjob
    cases hjob
    refine ⟨_, rfl, ?_⟩
    dsimp only
    split <;> exact ⟨rfl, fun hdone => ⟨hdone, rfl, rfl⟩⟩
  | recorded =>
    intro job hjob
    cases hjob
    exact ⟨_, rfl, rfl, fun hdone => ⟨hdone, rfl, rfl⟩⟩

/-! ## Runs -/

theorem sound_changes {log log' : Journal × List Observed} (h : Sound d log) (hchanges : Changes d log log') :
    Sound d log' ∧ Journal.Kept log.1 log'.1 := by
  induction hchanges with
  | refl => exact ⟨h, .refl _⟩
  | tail _ hchange ih => exact ⟨ih.1.change hchange, ih.2.trans (.change ih.1 hchange)⟩

theorem sound_run {ops : List Op} (hops : Along (exec d) (Meets d) ops s) (h : Sound d s.log) :
    Sound d (ops.foldl (exec d) s).log ∧ Journal.Kept s.row (ops.foldl (exec d) s).row := by
  refine hops.invariant (Q := fun s' => Sound d s'.log ∧ Journal.Kept s.row s'.row) ?_ ⟨h, .refl _⟩
  intro s' op hmeets hs'
  obtain ⟨hsound, hkept⟩ := sound_changes hs'.1 (exec_changes op hmeets)
  exact ⟨hsound, hs'.2.trans hkept⟩

theorem Sound.empty : Sound d ({} : World).log :=
  ⟨nofun, nofun, .nil, nofun, .nil, .nil, Nat.zero_le _⟩

/-- **A capture has one job and one receipt**, in every run in which a poll that
comes to a job that is done composes the receipt it holds, and a receipt that
was returned is claimed or recorded before a background delivery comes to it. -/
theorem one_receipt (d : Downstream) (ops : List Op) (hops : Along (exec d) (Meets d) ops {}) : OneReceipt d ops := by
  obtain ⟨hsound, -⟩ := sound_run hops Sound.empty
  refine ⟨hsound.called, ?_, hsound.claimed.trans (Nat.add_le_add_left (Journal.claims_le _) _), hsound.recorded,
    hsound.answered⟩
  rintro first second rfl
  obtain ⟨hfirst, hsecond⟩ := Along.append.mp hops
  have hkept := (sound_run hsecond (sound_run hfirst Sound.empty).1).2
  rw [← List.foldl_append] at hkept
  exact hkept

/-- A note that is transcribed. -/
def transcribed : Downstream where
  unicode := .ascii
  ticket := "t1".toList
  result :=
    { structuredContent := some (.obj
        [("ticket_id".toList, .str "t1".toList), ("state".toList, .str "done".toList),
          ("result".toList, .obj
            [("extraction".toList, .obj [("transcriptionStatus".toList, .str "transcribed".toList)])])]) }

def note : Request where
  sender := "s".toList
  chatId := "c".toList
  conversationKey := "k".toList
  tool := "ingest_memory".toList
  handoff := { sender := "s".toList, textTranscript := some "hi".toList }

/-- The note is accepted, the process dies, and the recovery and a redelivery of the message both poll the ticket; the
recovery has the result first. -/
def polledTwice : List Op :=
  [.receive note, .go 0 {}, .go 0 {}, .restart, .resumePendingCaptures, .go 0 {}, .go 0 {}, .go 0 {}, .receive note,
    .go 1 {}, .go 0 { poll := .final }]

/-- The redelivery, which has the transcript, writes its receipt over the one of the recovery, which has none. -/
theorem receipt_rewritten : ¬ OneReceipt transcribed (polledTwice ++ [.go 0 { poll := .final }]) := by
  intro h
  have hdone : (run transcribed polledTwice).row.map (·.state) = some .done := by decide +kernel
  have htexts : (run transcribed (polledTwice ++ [.go 0 { poll := .final }])).row.map (·.receiptText) ≠
      (run transcribed polledTwice).row.map (·.receiptText) := by decide +kernel
  obtain ⟨job, hrow, hstate⟩ := Option.map_eq_some_iff.mp hdone
  obtain ⟨job', hrow', hkept⟩ := h.kept polledTwice _ rfl job hrow
  rw [hrow, hrow', Option.map_some, Option.map_some, (hkept.receipt hstate).2.1] at htexts
  exact htexts rfl

/-- A note whose delivery is paused, and made good by a recovery. -/
def paused : List Op :=
  [.receive note, .go 0 {}, .go 0 {}, .go 0 { poll := .deadline }, .go 0 {}, .go 0 {}, .go 0 { poll := .final }, .go 0 {},
    .go 0 { delivery := .paused }, .resumePendingCaptures, .go 0 {}, .go 0 {}, .go 0 { delivery := .sent "m1".toList },
    .receive note, .go 0 {}]

theorem delivered_once :
    (run transcribed paused).history = [.called, .accepted, .delivered, .paused, .delivered, .recorded, .answered] ∧
      OneReceipt transcribed paused :=
  ⟨by decide +kernel, one_receipt transcribed paused (by decide +kernel)⟩

end Zenod.Channels
