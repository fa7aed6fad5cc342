/-
Who waits when the voice worker is idle.

`all_refused_when_idle`: in every run whose sweeps are given up only while
nobody else waits, what waits beside an idle worker belongs to a tenant whose
admission answered paused, or is a job whose settlement failed.
-/
import Mathlib
import Zenod.WhatsApp.VoiceView
import Zenod.WhatsApp.VoiceWorker

namespace Zenod.WhatsApp

open Keyed Text

variable {lib : VoiceLibrary} {c c' : Runtime} {s : Store} {job j k : VoiceJob} {now : Int} {a : Answers} {r : Reply}

/-- What the worker would claim. -/
def VoiceJob.waits (k : VoiceJob) : Bool := k.state = .queued || k.state = .transcribed

namespace Runtime

/-- The tenant's admission answered paused in this run of the worker, or the job's settlement failed. -/
def Refused (c : Runtime) (k : VoiceJob) : Prop := k.tenantId ∈ c.paused ∨ k.providerMessageId ∈ c.unsettled

def AllRefused (c : Runtime) : Prop := ∀ k ∈ c.store.jobs.rows, k.waits = true → c.Refused k

/-- The worker does not sweep over the jobs. -/
def rests (c : Runtime) : Bool := c.phase = .idle || c.phase = .returned

/-- The job in hand, whose settlement may fail in the step, and the jobs of its tenant, whose admission may answer paused. -/
def InHand (c : Runtime) (a : Answers) (r : Reply) (k : VoiceJob) : Prop :=
  match c.phase, r with
  | .head, _ =>
    match c.store.nextVoiceJob c.lastVoiceTenantId with
    | some j => k.providerMessageId = j.providerMessageId ∨ a.admission = .paused ∧ k.tenantId = j.tenantId
    | none => False
  | .transcribing j _, .transcribed _ => k.providerMessageId = j.providerMessageId
  | _, _ => False

/-- A step that gives a sweep up leaves nobody behind: a wake-up was requested or is due, or all who wait were refused before or
are in hand. -/
def LeavesNobody (lib : VoiceLibrary) (c : Runtime) : WorkerMove → Prop
  | .work a r now => c.rests = false → (c.work lib a r now).rests = true →
      c.voiceWorkerClosed = true ∨ c.voiceWorkerWakeRequested = true ∨ c.owed = true ∨
        ∀ k ∈ c.store.jobs.rows, k.waits = true → c.Refused k ∨ c.InHand a r k
  | _ => True

instance : Decidable c.AllRefused := by
  unfold AllRefused Refused
  infer_instance

instance : Decidable (c.InHand a r k) := by
  unfold InHand
  split
  · split <;> infer_instance
  · infer_instance
  · infer_instance

instance (m : WorkerMove) : Decidable (c.LeavesNobody lib m) := by
  unfold LeavesNobody Refused
  split <;> infer_instance

end Runtime

/-! ## Rows -/

theorem mem_updateJobs {p : VoiceJob → Bool} {f : VoiceJob → VoiceJob} {hf} (h : k ∈ (s.updateJobs p f hf).jobs.rows) :
    (k ∈ s.jobs.rows ∧ p k = false) ∨ ∃ k' ∈ s.jobs.rows, p k' = true ∧ k = f k' := by
  obtain ⟨k', hk', rfl⟩ := List.mem_map.1 h
  by_cases hp : p k' = true
  · exact Or.inr ⟨k', hk', hp, by rw [if_pos hp]⟩
  · rw [if_neg hp]
    exact Or.inl ⟨hk', by simpa using hp⟩

theorem row_unique (hj : j ∈ s.jobs.rows) (hk : k ∈ s.jobs.rows) (hid : k.providerMessageId = j.providerMessageId) : k = j :=
  Table.eq_of_identifies (q := fun k => k.providerMessageId = j.providerMessageId)
    (fun a b ha hb => by simp_all [Keyed.clash]) hk hj (by simpa using hid) (by simp)

/-- An update of one job leaves the rows of the others. -/
theorem mem_updateJob {id : Text} {P : VoiceJob → Bool} {f : VoiceJob → VoiceJob} {hf}
    (h : k ∈ (s.updateJobs (fun j => j.providerMessageId = id && P j) f hf).jobs.rows) (hid : k.providerMessageId ≠ id) :
    k ∈ s.jobs.rows := by
  rcases mem_updateJobs h with ⟨hk, -⟩ | ⟨k', -, hp, rfl⟩
  · exact hk
  · simp only [Bool.and_eq_true, decide_eq_true_eq] at hp
    rw [hf] at hid
    exact absurd hp.1 hid

theorem next_mem {last : Option Text} (h : s.nextVoiceJob last = some j) : j ∈ s.jobs.rows ∧ j.waits = true := by
  have hmem := List.mem_of_mem_head? h
  rw [List.mem_insertionSort, List.mem_filter] at hmem
  exact hmem

theorem next_none {last : Option Text} (h : s.nextVoiceJob last = none) (hk : k ∈ s.jobs.rows) : k.waits = false := by
  by_contra hwaits
  rw [Store.nextVoiceJob, List.head?_eq_none_iff] at h
  have hmem : k ∈ (s.jobs.rows.filter fun j => j.state = .queued || j.state = .transcribed).insertionSort
      fun a b => Store.comesFirst last a b = true := by
    rw [List.mem_insertionSort, List.mem_filter]
    exact ⟨hk, Bool.of_not_eq_false hwaits⟩
  rw [h] at hmem
  cases hmem

/-- What the worker claims next, and what is left of the job's row. -/
theorem claim_next (s : Store) (last : Option Text) (now : Int) :
    (s.nextVoiceJob last = none ∧ s.claimNextVoiceJob last now = (none, s)) ∨
      ∃ j, s.nextVoiceJob last = some j ∧
        ((j.state = .transcribed ∧ s.claimNextVoiceJob last now = (some j, s)) ∨
          (j.state = .queued ∧ ∃ s', s.claimNextVoiceJob last now =
              (some { j with state := .transcribing, attempts := j.attempts + 1, updatedAt := now }, s') ∧
            ∀ k ∈ s'.jobs.rows, (k.providerMessageId ≠ j.providerMessageId ∧ k ∈ s.jobs.rows) ∨
              (k.providerMessageId = j.providerMessageId ∧ k.tenantId = j.tenantId ∧ k.state = .transcribing))) := by
  cases hnext : s.nextVoiceJob last with
  | none => exact Or.inl ⟨rfl, by simp only [Store.claimNextVoiceJob, hnext]⟩
  | some j =>
    refine Or.inr ⟨j, rfl, ?_⟩
    obtain ⟨hmem, hwaits⟩ := next_mem hnext
    simp only [Store.claimNextVoiceJob, hnext]
    by_cases htranscribed : j.state = .transcribed
    · exact Or.inl ⟨htranscribed, if_pos htranscribed⟩
    · have hqueued : j.state = .queued := by
        simpa [VoiceJob.waits, htranscribed] using hwaits
      rw [if_neg htranscribed]
      refine Or.inr ⟨hqueued, _, Prod.ext ?_ rfl, fun k hk => ?_⟩
      · show Store.voiceJob _ j.providerMessageId = _
        rw [voiceJob_updateJobs, voiceJob_of_mem hmem, Option.map_some, if_pos (by simp [hqueued])]
      · rcases mem_updateJobs hk with ⟨hk, hp⟩ | ⟨k', hk', hp, rfl⟩
        · refine Or.inl ⟨fun hid => ?_, hk⟩
          rw [row_unique hmem hk hid] at hp
          simp [hqueued] at hp
        · simp only [Bool.and_eq_true, decide_eq_true_eq] at hp
          exact Or.inr ⟨hp.1, by rw [row_unique hmem hk' hp.1], rfl⟩

/-! ## Steps that give a sweep up -/

namespace Runtime

/-- An error ends the sweep where the job's transcript is kept, and only there. -/
theorem caught_rests {retryable : Bool} (h : (c.caught job retryable now).rests = true) :
    c.caught job retryable now = { c with phase := .returned } := by
  unfold caught at h ⊢
  simp only at h ⊢
  split at h
  · cases h
  · split at h
    · cases h
    · split at h
      · next hcancelled hrequeued htranscribed => rw [if_neg hcancelled, if_neg hrequeued, if_pos htranscribed]
      · split at h <;> cases h

theorem handOff_rests {receipt : TranscriptionReceipt} : (c.handOff job receipt now).rests = false := by
  unfold handOff
  simp only
  split
  · rfl
  · split <;> rfl

/-- What is in the store of a runtime that gave a sweep up: what was there, and the job in hand. -/
structure GaveUp (c c' : Runtime) (InHand : VoiceJob → Prop) : Prop where
  closed : c'.voiceWorkerClosed = c.voiceWorkerClosed
  wake : c'.voiceWorkerWakeRequested = c.voiceWorkerWakeRequested
  owed : c'.owed = c.owed
  asleep : c'.phase = .idle → c'.voiceWorkerClosed = true ∨ c'.voiceWorkerWakeRequested = false
  rows : ∀ k ∈ c'.store.jobs.rows, k.waits = true → c'.Refused k ∨ (k ∈ c.store.jobs.rows ∧ ¬ InHand k)
  refused : ∀ k, c.Refused k → c'.Refused k

/-- A settlement that fails refuses its job. -/
theorem GaveUp.unsettled {store : Store} {P : VoiceJob → Prop}
    (hrows : ∀ k ∈ store.jobs.rows, k.providerMessageId ≠ job.providerMessageId → k ∈ c.store.jobs.rows)
    (hP : ∀ k, P k → k.providerMessageId = job.providerMessageId)
    (h : (({ c with store := store }.unsettle job).caught job false now).rests = true) :
    GaveUp c (({ c with store := store }.unsettle job).caught job false now) P := by
  rw [caught_rests h]
  refine ⟨rfl, rfl, rfl, (fun hidle => by cases hidle), fun k hk _ => ?_, fun k hk => hk.imp id (List.mem_cons_of_mem _)⟩
  by_cases hid : k.providerMessageId = job.providerMessageId
  · exact Or.inl (Or.inr (List.mem_cons.2 (Or.inl hid)))
  · exact Or.inr ⟨hrows k hk hid, fun hp => hid (hP k hp)⟩

theorem transcribed_gaveUp {metered settles : Bool} {receipt : TranscriptionReceipt} {P : VoiceJob → Prop}
    (hP : ∀ k, P k → k.providerMessageId = job.providerMessageId)
    (h : (c.transcribed lib job metered receipt settles now).rests = true) :
    GaveUp c (c.transcribed lib job metered receipt settles now) P := by
  have hsame : ∀ k ∈ c.store.jobs.rows, k.providerMessageId ≠ job.providerMessageId → k ∈ c.store.jobs.rows := fun _ hk _ => hk
  unfold transcribed at h ⊢
  simp only at h ⊢
  split at h
  · next hcancelled =>
    rw [if_pos hcancelled]
    split at h
    · next hfails =>
      rw [if_pos hfails]
      exact .unsettled hsame hP h
    · cases h
  · next hcancelled =>
    rw [if_neg hcancelled]
    split at h
    · next hfailed =>
      rw [if_pos hfailed]
      split at h
      · next hfails =>
        rw [if_pos hfails]
        exact .unsettled hsame hP h
      · cases h
    · next hfailed =>
      rw [if_neg hfailed]
      split at h
      · next hpersists =>
        rw [if_pos hpersists]
        split at h
        · next hfails =>
          rw [if_pos hfails]
          exact .unsettled (fun k hk hid => mem_updateJob hk hid) hP h
        · rw [handOff_rests] at h
          cases h
      · next hpersists =>
        rw [if_neg hpersists]
        split at h
        · next hfails =>
          rw [if_pos hfails]
          exact .unsettled hsame hP h
        · cases h

/-- A transcript that is settled: refused by its admission, or by its settlement. -/
theorem settled_gaveUp (hmem : j ∈ c.store.jobs.rows) (hstate : j.state = .transcribed) {P : VoiceJob → Prop}
    (hP : ∀ k, P k → k.providerMessageId = j.providerMessageId ∨ a.admission = .paused ∧ k.tenantId = j.tenantId)
    {last : Option Text} (h : ({ c with lastVoiceTenantId := last }.admitted lib j a now).rests = true) :
    GaveUp c ({ c with lastVoiceTenantId := last }.admitted lib j a now) P := by
  have hgave : a.admission ≠ .paused → (({ c with lastVoiceTenantId := last }.unsettle j).caught j false now).rests = true →
      GaveUp c (({ c with lastVoiceTenantId := last }.unsettle j).caught j false now) P := by
    intro hnot hrests
    rw [caught_rests hrests]
    refine ⟨rfl, rfl, rfl, (fun hidle => by cases hidle), fun k hk _ => ?_, fun k hk => hk.imp id (List.mem_cons_of_mem _)⟩
    by_cases hid : k.providerMessageId = j.providerMessageId
    · exact Or.inl (Or.inr (List.mem_cons.2 (Or.inl hid)))
    · exact Or.inr ⟨hk, fun hp => (hP k hp).elim hid fun hpaused => hnot hpaused.1⟩
  unfold admitted at h ⊢
  rw [if_pos hstate] at h ⊢
  simp only at h ⊢
  split at h
  · rw [handOff_rests] at h
    cases h
  · next hlimit =>
    rw [if_neg hlimit]
    cases hadmission : a.admission with
    | throws =>
      rw [hadmission] at h
      exact hgave (by rw [hadmission]; exact Admission.noConfusion) h
    | paused =>
      refine ⟨rfl, rfl, rfl, (fun hidle => by cases hidle), fun k hk _ => ?_, fun k hk => hk.imp (List.mem_cons_of_mem _) id⟩
      by_cases hp : P k
      · refine Or.inl (Or.inl (List.mem_cons.2 (Or.inl ?_)))
        exact (hP k hp).elim (fun hid => by rw [row_unique hmem hk hid]) And.right
      · exact Or.inr ⟨hk, hp⟩
    | absent =>
      rw [hadmission] at h
      simp only [handOff_rests] at h
      cases h
    | ready =>
      rw [hadmission] at h
      simp only at h ⊢
      split at h
      · rw [handOff_rests] at h
        cases h
      · next hfails =>
        rw [if_neg hfails]
        exact hgave (by rw [hadmission]; exact Admission.noConfusion) h

/-- Without a claim of usage nothing is settled, and the sweep goes on. -/
theorem transcribed_unmetered {receipt : TranscriptionReceipt} {settles : Bool} :
    (c.transcribed lib job false receipt settles now).rests = false := by
  unfold transcribed
  simp only [Bool.false_and, Bool.false_eq_true, if_false]
  split
  · rfl
  · split
    · rfl
    · split
      · exact handOff_rests
      · rfl

/-- A job that was claimed for transcription: refused by its admission. -/
theorem claimed_gaveUp {store : Store} (hstate : j.state ≠ .transcribed) {i : VoiceJob} (hid : j.providerMessageId = i.providerMessageId)
    (htenant : j.tenantId = i.tenantId)
    (hrows : ∀ k ∈ store.jobs.rows, (k.providerMessageId ≠ i.providerMessageId ∧ k ∈ c.store.jobs.rows) ∨
      (k.providerMessageId = i.providerMessageId ∧ k.tenantId = i.tenantId ∧ k.state = .transcribing))
    {P : VoiceJob → Prop}
    (hP : ∀ k, P k → k.providerMessageId = i.providerMessageId ∨ a.admission = .paused ∧ k.tenantId = i.tenantId)
    {last : Option Text} (h : ({ c with store := store, lastVoiceTenantId := last }.admitted lib j a now).rests = true) :
    GaveUp c ({ c with store := store, lastVoiceTenantId := last }.admitted lib j a now) P := by
  unfold admitted at h ⊢
  rw [if_neg hstate] at h ⊢
  simp only at h ⊢
  split at h
  · next hlong =>
    rw [transcribed_unmetered] at h
    cases h
  · next hlong =>
    rw [if_neg hlong]
    cases hadmission : a.admission with
    | throws =>
      rw [hadmission] at h
      simp only at h ⊢
      rw [caught_rests h]
      refine ⟨rfl, rfl, rfl, (fun hidle => by cases hidle), fun k hk hwaits => ?_, fun k hk => hk⟩
      rcases hrows k hk with ⟨hne, hmem⟩ | ⟨-, -, htranscribing⟩
      · refine Or.inr ⟨hmem, fun hp => (hP k hp).elim hne fun hpaused => ?_⟩
        rw [hadmission] at hpaused
        cases hpaused.1
      · rw [VoiceJob.waits, htranscribing] at hwaits
        cases hwaits
    | paused =>
      refine ⟨rfl, rfl, rfl, (fun hidle => by cases hidle), fun k hk _ => ?_, fun k hk => hk.imp (List.mem_cons_of_mem _) id⟩
      have hrefused : ∀ {k' : VoiceJob} {Q : Prop}, k'.tenantId = i.tenantId → k'.tenantId ∈ j.tenantId :: c.paused ∨ Q :=
        fun ht => Or.inl (List.mem_cons.2 (Or.inl (ht.trans htenant.symm)))
      have hrow : k ∈ (store.requeueInterruptedVoiceJob j.providerMessageId now).jobs.rows := hk
      unfold Store.requeueInterruptedVoiceJob at hrow
      rcases mem_updateJobs hrow with ⟨hk, -⟩ | ⟨k', hk', hp, rfl⟩
      · rcases hrows k hk with ⟨hne, hmem⟩ | ⟨-, ht, -⟩
        · by_cases hp : P k
          · exact Or.inl (hrefused ((hP k hp).elim (fun hid => absurd hid hne) And.right))
          · exact Or.inr ⟨hmem, hp⟩
        · exact Or.inl (hrefused ht)
      · simp only [Bool.and_eq_true, decide_eq_true_eq] at hp
        rcases hrows k' hk' with ⟨hne, -⟩ | ⟨-, ht, -⟩
        · exact absurd (hp.1.trans hid) hne
        · exact Or.inl (hrefused ht)
    | absent =>
      rw [hadmission] at h
      cases h
    | ready =>
      rw [hadmission] at h
      cases h

theorem head_gaveUp (hphase : c.phase = .head) (h : (c.work lib a r now).rests = true) :
    (c.work lib a r now).voiceWorkerClosed = true ∨ GaveUp c (c.work lib a r now) (c.InHand a r) := by
  have hP : ∀ {j k : VoiceJob}, c.store.nextVoiceJob c.lastVoiceTenantId = some j → c.InHand a r k →
      k.providerMessageId = j.providerMessageId ∨ a.admission = .paused ∧ k.tenantId = j.tenantId := by
    intro j k hnext hin
    simpa only [InHand, hphase, hnext] using hin
  unfold work at h ⊢
  rw [hphase] at h ⊢
  simp only at h ⊢
  split at h
  · next hclosed =>
    rw [if_pos hclosed]
    exact Or.inl hclosed
  · next hclosed =>
    rw [if_neg hclosed]
    refine Or.inr ?_
    rcases claim_next c.store c.lastVoiceTenantId now with
      ⟨hnext, hclaim⟩ | ⟨j, hnext, ⟨hstate, hclaim⟩ | ⟨hstate, store, hclaim, hrows⟩⟩
    · rw [hclaim]
      refine ⟨rfl, rfl, rfl, (fun hidle => by cases hidle), fun k hk hwaits => ?_, fun k hk => hk⟩
      rw [next_none hnext hk] at hwaits
      cases hwaits
    · rw [hclaim] at h ⊢
      exact settled_gaveUp (next_mem hnext).1 hstate (fun k hk => hP hnext hk) h
    · rw [hclaim] at h ⊢
      refine claimed_gaveUp (i := j) ?_ ?_ ?_ hrows (fun k hk => hP hnext hk) h
      · exact VoiceJobState.noConfusion
      · rfl
      · rfl

theorem caught_gaveUp (store : Store) {P : VoiceJob → Prop} {retryable : Bool} (hjobs : store.jobs = c.store.jobs) (hP : ∀ k, ¬ P k)
    (h : ({ c with store := store }.caught job retryable now).rests = true) :
    GaveUp c ({ c with store := store }.caught job retryable now) P := by
  rw [caught_rests h]
  exact ⟨rfl, rfl, rfl, (fun hidle => by cases hidle), fun k hk _ => Or.inr ⟨hjobs ▸ hk, hP k⟩, fun k hk => hk⟩

end Runtime

theorem jobs_recordChannelForwarding (s : Store) (id tenantId replyText : Text) (now : Int) :
    (s.recordChannelForwarding id tenantId replyText now).jobs = s.jobs := by
  unfold Store.recordChannelForwarding
  simp only
  split <;> rfl

theorem jobs_reconcile (s : Store) (id : Text) (now : Int) : (s.reconcileVoiceCoalescedFollowers id now).jobs = s.jobs := by
  have hfold : ∀ (l : List Coalescing) (f : Store → Coalescing → Store), (∀ s c, (f s c).jobs = s.jobs) → ∀ s : Store,
      (l.foldl f s).jobs = s.jobs := by
    intro l f hf
    induction l with
    | nil => exact fun _ => rfl
    | cons c l ih => exact fun s => (ih _).trans (hf s c)
  refine hfold _ _ (fun s c => ?_) s
  split
  · split <;> rfl
  · rfl

namespace Runtime

/-- **A sweep that is given up** leaves of the jobs what was there and was not in hand, or refused them. -/
theorem work_gaveUp (hsweeps : c.rests = false) (h : (c.work lib a r now).rests = true) :
    (c.work lib a r now).voiceWorkerClosed = true ∨ GaveUp c (c.work lib a r now) (c.InHand a r) := by
  have hstill : c.rests ≠ true := by rw [hsweeps]; exact Bool.false_ne_true
  have hnone : ∀ {r}, (∀ k, ¬ c.InHand a r k) → ∀ {job : VoiceJob} {retryable : Bool},
      (c.caught job retryable now).rests = true → GaveUp c (c.caught job retryable now) (c.InHand a r) :=
    fun hP _ _ hrests => caught_gaveUp c.store rfl hP hrests
  cases hphase : c.phase with
  | idle | returned => simp [rests, hphase] at hsweeps
  | head => exact head_gaveUp hphase h
  | reading job metered =>
    refine Or.inr ?_
    unfold work at h ⊢
    rw [hphase] at h ⊢
    cases r with
    | done ok =>
      cases ok with
      | true => cases h
      | false => exact hnone (fun k => by simp [InHand, hphase]) h
    | transcribed | forwarded | rejected => exact absurd h hstill
  | transcribing job metered =>
    refine Or.inr ?_
    unfold work at h ⊢
    rw [hphase] at h ⊢
    cases r with
    | transcribed receipt =>
      refine transcribed_gaveUp (fun k hk => ?_) h
      simpa only [InHand, hphase] using hk
    | rejected retryable => exact hnone (fun k => by simp [InHand, hphase]) h
    | done | forwarded => exact absurd h hstill
  | forwarding job =>
    refine Or.inr ?_
    unfold work at h ⊢
    rw [hphase] at h ⊢
    cases r with
    | forwarded tenantId replyText observes =>
      cases observes with
      | false => exact hnone (fun k => by simp [InHand, hphase]) h
      | true =>
        simp only [if_true] at h ⊢
        split at h
        · cases h
        · next hends =>
          rw [if_neg hends]
          exact caught_gaveUp _ ((jobs_reconcile _ _ _).trans (jobs_recordChannelForwarding _ _ _ _ _))
            (fun k => by simp [InHand, hphase]) h
    | rejected retryable => exact hnone (fun k => by simp [InHand, hphase]) h
    | done | transcribed => exact absurd h hstill
  | draining job | drainingReply job =>
    refine Or.inr ?_
    unfold work at h ⊢
    rw [hphase] at h ⊢
    cases r with
    | done ok =>
      cases ok with
      | true => cases h
      | false => exact hnone (fun k => by simp [InHand, hphase]) h
    | transcribed | forwarded | rejected => exact absurd h hstill
  | drainingError =>
    refine Or.inr ?_
    unfold work at h ⊢
    rw [hphase] at h ⊢
    cases r with
    | done ok =>
      cases ok with
      | true => cases h
      | false =>
        simp only [Bool.false_eq_true, if_false] at h ⊢
        split at h
        · cases h
        · next hasleep =>
          rw [if_neg hasleep]
          refine ⟨rfl, rfl, rfl, fun _ => ?_, fun k hk _ => Or.inr ⟨hk, by simp [InHand, hphase]⟩, fun k hk => hk⟩
          simpa [or_comm, imp_iff_or_not] using hasleep
    | transcribed | forwarded | rejected => exact absurd h hstill

/-! ## The invariant -/

/-- Where the worker does not sweep, somebody was refused for each who waits, or the worker is woken again. -/
structure Rested (c : Runtime) : Prop where
  woken : c.rests = true → c.voiceWorkerClosed = true ∨ c.voiceWorkerWakeRequested = true ∨ c.owed = true ∨ c.AllRefused
  asleep : c.phase = .idle → c.voiceWorkerClosed = true ∨ c.voiceWorkerWakeRequested = false

theorem Rested.of_sweep (h : c.rests = false) : c.Rested where
  woken hr := absurd (h.symm.trans hr) Bool.false_ne_true
  asleep hidle := by simp [rests, hidle] at h

theorem Rested.work (h : c.Rested) (hleaves : c.LeavesNobody lib (.work a r now)) : (c.work lib a r now).Rested := by
  by_cases hrests : (c.work lib a r now).rests = true
  · by_cases hsweeps : c.rests = false
    · rcases work_gaveUp hsweeps hrests with hclosed | hgave
      · exact ⟨fun _ => Or.inl hclosed, fun _ => Or.inl hclosed⟩
      · refine ⟨fun _ => ?_, hgave.asleep⟩
        rcases hleaves hsweeps hrests with hclosed | hwake | howed | hall
        · exact Or.inl (hgave.closed.trans hclosed)
        · exact Or.inr (Or.inl (hgave.wake.trans hwake))
        · exact Or.inr (Or.inr (Or.inl (hgave.owed.trans howed)))
        · refine Or.inr (Or.inr (Or.inr fun k hk hwaits => ?_))
          rcases hgave.rows k hk hwaits with hrefused | ⟨hmem, hnot⟩
          · exact hrefused
          · exact (hall k hmem hwaits).elim (hgave.refused k) fun hin => absurd hin hnot
    · -- from where it rests the worker goes to sleep, or on to another sweep
      have hrested : c.rests = true := by simpa using hsweeps
      cases hphase : c.phase with
      | idle =>
        have hsame : c.work lib a r now = c := by
          unfold Runtime.work
          rw [hphase]
        rw [hsame]
        exact h
      | returned =>
        unfold Runtime.work at hrests ⊢
        rw [hphase] at hrests ⊢
        simp only at hrests ⊢
        split at hrests
        · cases hrests
        · next hasleep =>
          rw [if_neg hasleep]
          exact ⟨fun _ => h.woken hrested, fun _ => by simpa [or_comm, imp_iff_or_not] using hasleep⟩
      | _ => simp [rests, hphase] at hrested
  · exact .of_sweep (by simpa using hrests)

theorem Rested.kick (h : c.Rested) : c.kickVoiceWorker.Rested := by
  unfold kickVoiceWorker
  split
  · exact h
  · split
    · exact .of_sweep rfl
    · next hidle => exact ⟨fun _ => Or.inr (Or.inl rfl), fun hphase => absurd hphase hidle⟩

/-- Where the store changes beside the worker, and no more jobs wait. -/
theorem Rested.outside {store : Store} (h : c.Rested)
    (hrows : ∀ k ∈ store.jobs.rows, k.waits = true → k ∈ c.store.jobs.rows) : ({ c with store := store } : Runtime).Rested := by
  refine ⟨fun hrests => ?_, h.asleep⟩
  rcases h.woken hrests with hclosed | hwake | howed | hall
  · exact Or.inl hclosed
  · exact Or.inr (Or.inl hwake)
  · exact Or.inr (Or.inr (Or.inl howed))
  · exact Or.inr (Or.inr (Or.inr fun k hk hwaits => hall k (hrows k hk hwaits) hwaits))

end Runtime

/-- What others do makes no job wait. -/
theorem outside_rows {op : Op} (hop : op.isOutside = true) (hk : k ∈ (s.exec op).jobs.rows) (hwaits : k.waits = true) :
    k ∈ s.jobs.rows := by
  have hmoved : ∀ {t : Store} {id : Text} {P : VoiceJobState → Bool} {state : VoiceJobState} {now : Int},
      (state = .cancelled ∨ state = .completed) → k ∈ (t.moveJob id P state now).jobs.rows → k ∈ t.jobs.rows := by
    intro t id P state now hstate hmem
    rcases mem_updateJobs hmem with ⟨hmem, -⟩ | ⟨k', -, -, rfl⟩
    · exact hmem
    · rcases hstate with rfl | rfl <;> cases hwaits
  cases op with
  | cancelLatestVoiceJob tenantId conversationKey now =>
    simp only [Store.exec, Store.cancelLatestVoiceJob] at hk
    split at hk
    · exact hk
    · exact hmoved (Or.inl rfl) hk
  | completeInterruptedMediaRecovery claim outcome now =>
    cases outcome with
    | failed error => exact hk
    | sent sentMessageId intentId =>
      simp only [Store.exec, Store.completeInterruptedMediaRecovery] at hk
      by_cases hkind : claim.kind = .forwardedReply
      · simp only [if_pos hkind] at hk
        have hmem := hmoved (Or.inr rfl) hk
        exact hmem
      · simp only [if_neg hkind] at hk
        exact hk
  | recordMessage m =>
    simp only [Store.exec, Store.recordMessage] at hk
    split at hk <;> exact hk
  | recordChannelForwarding id tenantId replyText now =>
    rwa [Store.exec, jobs_recordChannelForwarding] at hk
  | claimInterruptedMediaRecovery now =>
    simp only [Store.exec, Store.claimInterruptedMediaRecovery] at hk
    split at hk <;> exact hk
  | claimMediaCoalescing id tenantId channel hash windowMs now =>
    simp only [Store.exec, Store.claimMediaCoalescing] at hk
    split at hk <;> exact hk
  | completeMediaCoalescing canonical completed now => exact hk
  | writeIntents intents => exact hk
  | _ => cases hop

theorem resume_rows {tenantId : Text} (hnone : s.deferredCaptures tenantId = []) (now : Int) :
    (s.resumeIdempotentVoiceCaptures tenantId now).jobs = s.jobs := by
  simp only [Store.resumeIdempotentVoiceCaptures, hnone, List.foldl_nil, Store.updateJobs]
  refine Table.update_eq_self fun j hj => ?_
  rw [Store.deferredCaptures, List.map_eq_nil_iff, List.filter_eq_nil_iff] at hnone
  exact Bool.eq_false_iff.2 (hnone j hj)

namespace Runtime

theorem Rested.step (h : c.Rested) (m : WorkerMove) (hleaves : c.LeavesNobody lib m) : (c.step lib m).Rested := by
  cases m with
  | work a r now => exact h.work hleaves
  | kickVoiceWorker => exact h.kick
  | createVoiceJob job =>
    simp only [Runtime.step, meanwhile]
    split
    · exact h
    · exact ⟨fun _ => Or.inr (Or.inr (Or.inl rfl)), h.asleep⟩
  | retryPendingVoiceCaptures tenantId now =>
    simp only [Runtime.step, meanwhile]
    split
    · exact h
    · split
      · next hnone => exact h.outside fun k hk _ => by rwa [resume_rows hnone] at hk
      · -- what was resumed may wait, but the worker is woken
        unfold kickVoiceWorker
        simp only
        split
        · next hclosed => exact ⟨fun _ => Or.inl hclosed, fun _ => Or.inl hclosed⟩
        · split
          · exact .of_sweep rfl
          · next hidle => exact ⟨fun _ => Or.inr (Or.inl rfl), fun hphase => absurd hphase hidle⟩
  | outside op hop =>
    simp only [Runtime.step, meanwhile]
    split
    · exact h
    · exact h.outside fun k hk hwaits => outside_rows hop hk hwaits
  | close =>
    simp only [Runtime.step, meanwhile]
    split
    · exact h
    · exact ⟨fun _ => Or.inl rfl, fun _ => Or.inl rfl⟩

end Runtime

/-- **Nobody is left waiting**: in every run whose sweeps are given up only while nobody else waits, beside an idle worker that
is not to be woken only jobs wait whose tenant was paused, or whose settlement failed. -/
theorem all_refused_when_idle (lib : VoiceLibrary) (s : Store) (moves : List WorkerMove)
    (h : Along (Runtime.step lib) (Runtime.LeavesNobody lib) moves { store := s, owed := true })
    (hidle : (moves.foldl (Runtime.step lib) { store := s, owed := true }).phase = .idle)
    (hopen : (moves.foldl (Runtime.step lib) { store := s, owed := true }).voiceWorkerClosed = false)
    (howed : (moves.foldl (Runtime.step lib) { store := s, owed := true }).owed = false) :
    (moves.foldl (Runtime.step lib) { store := s, owed := true }).AllRefused := by
  have hrested : (moves.foldl (Runtime.step lib) { store := s, owed := true }).Rested :=
    h.invariant (fun c m hleaves hc => hc.step m hleaves) ⟨fun _ => Or.inr (Or.inr (Or.inl rfl)), fun _ => Or.inr rfl⟩
  rcases hrested.woken (by simp [Runtime.rests, hidle]) with hclosed | hwake | hdue | hall
  · rw [hopen] at hclosed
    cases hclosed
  · rcases hrested.asleep hidle with hclosed | hnot
    · rw [hopen] at hclosed
      cases hclosed
    · rw [hnot] at hwake
      cases hwake
  · rw [howed] at hdue
    cases hdue
  · exact hall

/-- A library for jobs that are never read. -/
def noLibrary : VoiceLibrary where
  readReceipt _ := {}
  writeReceipt _ := []
  durationSeconds _ := none
  failureReply _ := []

/-- Two tenants with a job each. -/
def twoTenants : Store :=
  let job (id tenantId : Text) (createdAt : Int) : VoiceJob := {
    providerMessageId := id, tenantId := tenantId, conversationKey := [], artifactSha256 := [], state := .queued
    createdAt := createdAt, updatedAt := createdAt }
  (({} : Store).createVoiceJob (job "1".toList "a".toList 1)).createVoiceJob (job "2".toList "b".toList 2)

/-- A sweep in which the tenant whose turn it is is paused. -/
def pausedSweep : List WorkerMove := [.work ⟨.paused, true⟩ (.done true) 3, .work ⟨.paused, true⟩ (.done true) 3]

/-- A wake-up while the first tenant is paused. -/
def wokenBetween : List WorkerMove := .kickVoiceWorker :: .kickVoiceWorker :: (pausedSweep ++ pausedSweep)

/-- Woken again, the worker asks for the second tenant, too. -/
theorem both_asked : (wokenBetween.foldl (Runtime.step noLibrary) { store := twoTenants, owed := true }).AllRefused :=
  all_refused_when_idle noLibrary twoTenants wokenBetween
    (by decide +kernel) (by decide +kernel) (by decide +kernel) (by decide +kernel)

/-- Else the first tenant's allowance leaves the job of the second one waiting. -/
theorem second_left_waiting : ¬ ∀ lib s moves,
    (List.foldl (Runtime.step lib) { store := s, owed := true } moves).phase = .idle →
    (List.foldl (Runtime.step lib) { store := s, owed := true } moves).voiceWorkerClosed = false →
    (List.foldl (Runtime.step lib) { store := s, owed := true } moves).owed = false →
    (List.foldl (Runtime.step lib) { store := s, owed := true } moves).AllRefused :=
  fun h => absurd (h noLibrary twoTenants (.kickVoiceWorker :: pausedSweep) (by decide +kernel) (by decide +kernel)
    (by decide +kernel)) (by decide +kernel)

end Zenod.WhatsApp
