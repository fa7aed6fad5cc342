/-
The runs of an ingestion.

`careful_lifecycle`: one job is worked on at a time, and nothing stays queued;
and in a run that is careful (`Careful`) no two active jobs are of one file, a
cancelled job stays so, and no job is stored twice before it ends.
-/
import Zenod.Ingest.Lifecycle

namespace Zenod.Ingest

open Keyed Text IngestQueue Interleaving

variable {q q' : IngestQueue} {p : Process} {id : Text} {s : IngestStatus} {patch : Patch} {now : Int} {r r' job : JobRow}
  {error : StoreResult → Option Text} {client : Client} {b : Option Process}
  {w : Config IngestQueue Frame} {m : Move Call Frame Reply}

/-! ## Calls -/

theorem Core.draining (h : Core q b) (draining : Bool) : Core { q with draining := draining } b where
  toBase := ⟨h.ids, h.files, h.once⟩
  rest := h.rest
  busy p hp := by
    obtain ⟨hlookup, hrow, hearly⟩ := h.busy p hp
    exact ⟨hlookup, hrow, hearly⟩

theorem core_startJob (h : Core q none) (hjob : q.get job.id = some job) (hqueued : job.status = .queued) (client : Client)
    (now : Int) : Core (q.startJob job client now).1 ((q.startJob job client now).2.bind Frame.process?) := by
  unfold startJob
  split
  · exact h.write hjob (fun hactive => (by cases hactive)) fun _ hp => by cases hp
  · exact ⟨⟨h.ids, h.files, h.once⟩, h.rest, fun _ hp => by cases hp⟩
  · refine ⟨⟨h.ids, h.files, h.once⟩, fun id _ => h.rest id fun _ hp => (by cases hp), fun p hp => ?_⟩
    obtain rfl := (Option.some.inj hp).symm
    refine ⟨List.lookup_cons_self, ⟨job, hjob, ?_, ?_, fun hs => ?_⟩, fun _ => h.rest _ fun _ hp => by cases hp⟩
    · rw [hqueued]; decide
    · rw [hqueued]; decide
    · rw [hqueued] at hs
      cases hs

theorem core_loop (h : Core q none) (client : Client) (now : Int) :
    Core (q.loop client now).1 ((q.loop client now).2.bind Frame.process?) := by
  unfold loop
  split
  · exact h.draining false
  · next job hjob =>
    obtain ⟨hmem, hqueued⟩ := nextQueued_spec hjob
    exact core_startJob h (get_of_mem hmem) hqueued client now

/-- The jobs of a queue whose loop is at rest, or waits once. -/
def Sound (w : Config IngestQueue Frame) : Prop :=
  (w.pending = 0 ∧ Core w.state none) ∨ ∃ f, w.pending = {f} ∧ Core w.state f.process?

theorem sound_after {seg : Segment} (h : Core seg.1 (seg.2.bind Frame.process?)) : Sound (after 0 seg) := by
  obtain ⟨q, frame⟩ := seg
  cases frame with
  | none => exact Or.inl ⟨rfl, h⟩
  | some f => exact Or.inr ⟨f, rfl, h⟩

/-- A call changes the jobs beside the one on its way. -/
theorem Sound.map {q : IngestQueue} (h : Sound w) (hcore : ∀ b, Core w.state b → Core q b) : Sound ⟨q, w.pending⟩ := by
  rcases h with ⟨hw, h⟩ | ⟨f, hw, h⟩
  · exact Or.inl ⟨hw, hcore none h⟩
  · exact Or.inr ⟨f, hw, hcore _ h⟩

theorem sound_drain (hlone : Lone False w) (h : Sound w) {q : IngestQueue} (hq : q.draining = w.state.draining)
    (hcore : ∀ b, Core w.state b → Core q b) (client : Client) (now : Int) :
    Sound (after w.pending (q.drain client now)) := by
  unfold drain
  split
  · rw [after_none]
    exact h.map hcore
  · next hidle =>
    rw [Bool.not_eq_true] at hidle
    have hw := (hlone.idle (hq ▸ hidle)).1
    have hrest : Core q none := by
      rcases h with ⟨-, h⟩ | ⟨f, hf, -⟩
      · exact hcore none h
      · rw [hw] at hf
        exact absurd hf.symm (Multiset.singleton_ne_zero f)
    rw [hw]
    exact sound_after (core_loop (hrest.draining true) client now)

theorem get_insert {jobs : Table JobRow} {log : List Event} (hjobs : q.jobs.insert? job = some jobs) (j : Text) :
    ({ q with jobs := jobs, log := log } : IngestQueue).get j = (q.get j).or (if job.id = j then some job else none) := by
  have hfind := Table.find?_insert? hjobs (·.id = j)
  simp only [decide_eq_true_eq] at hfind
  exact hfind

/-- A job of a file without an active one is queued. -/
theorem Core.insert {jobs : Table JobRow} (h : Core q b) (hjobs : q.jobs.insert? job = some jobs)
    (hfree : ∀ i r, q.get i = some r → r.status.isActive = true → r.driveFileId ≠ job.driveFileId) :
    Core { q with jobs := jobs, log := q.log ++ [Event.status job.id .queued] } b where
  ids e he := by
    rw [get_insert hjobs]
    rcases List.mem_append.1 he with he | he
    · rw [Option.isSome_or, h.ids e he, Bool.true_or]
    · rw [List.mem_singleton.1 he, Event.job, if_pos rfl, Option.isSome_or, Option.isSome_some, Bool.or_true]
  files i j r r' hr hr' ha ha' hfile := by
    rw [get_insert hjobs] at hr hr'
    -- a row was there, or is the new one
    have hrow : ∀ k x, (q.get k).or (if job.id = k then some job else none) = some x →
        q.get k = some x ∨ k = job.id ∧ x = job := by
      intro k x hx
      cases hk : q.get k with
      | some y =>
        rw [hk, Option.some_or] at hx
        exact Or.inl hx
      | none =>
        rw [hk, Option.none_or] at hx
        split at hx
        · next hid => exact Or.inr ⟨hid.symm, (Option.some.inj hx).symm⟩
        · cases hx
    rcases hrow i r hr with ho | ⟨rfl, rfl⟩
    · rcases hrow j r' hr' with ho' | ⟨rfl, rfl⟩
      · exact h.files i j r r' ho ho' ha ha' hfile
      · exact absurd hfile (hfree i r ho ha)
    · rcases hrow j r' hr' with ho' | ⟨rfl, rfl⟩
      · exact absurd hfile.symm (hfree j r' ho' ha')
      · rfl
  once := by
    refine h.once.snoc fun j => ?_
    rw [tally_status, if_neg (by rintro ⟨-, hterminal⟩; cases hterminal)]
    exact h.once j q.log [] (List.append_nil _).symm
  rest j hj := by
    show tally j (q.log ++ [.status job.id .queued]) = 0
    rw [tally_status, h.rest j hj, ite_self]
  busy p hp := by
    obtain ⟨hlookup, ⟨r, hr, hkept⟩, hearly⟩ := h.busy p hp
    refine ⟨hlookup, ⟨r, ?_, hkept⟩, fun he => ?_⟩
    · rw [get_insert hjobs, hr, Option.some_or]
    · show tally p.id (q.log ++ [.status job.id .queued]) = 0
      rw [tally_status, hearly he, ite_self]

/-- No other active job is of the job's file. -/
def Retriable (q : IngestQueue) (id : Text) : Prop :=
  ∀ r ∈ q.jobs.rows, r.id = id → ∀ r' ∈ q.jobs.rows, r'.status.isActive = true → r'.driveFileId = r.driveFileId → r'.id = id

instance : Decidable (Retriable q id) :=
  inferInstanceAs (Decidable (∀ r ∈ q.jobs.rows, r.id = id → ∀ r' ∈ q.jobs.rows, r'.status.isActive = true →
    r'.driveFileId = r.driveFileId → r'.id = id))

theorem Core.retried (h : Core q b) (hr : q.get id = some r) (hretry : Retriable q id) :
    Core (q.updateStatus id .queued patch now) b := by
  refine h.write hr (fun _ => Or.inr fun j r' hr' hactive hfile => ?_) fun _ _ _ => ⟨by decide, by decide, fun h => by cases h⟩
  obtain ⟨hmem, hid⟩ := get_spec hr
  obtain ⟨hmem', hid'⟩ := get_spec hr'
  rw [← hid']
  exact hretry r hmem hid r' hmem' hactive hfile

theorem core_cancel (h : Core q b) (id : Text) (now : Int) : Core (q.cancel id now) b := by
  unfold IngestQueue.cancel
  split
  · exact h
  · next r hr =>
    simp only
    have habort : Core { q with aborted := (q.running.lookup id).toList ++ q.aborted } b :=
      h.of_alike (fun _ => rfl) rfl (fun _ _ => rfl) fun _ hc => List.mem_append_right _ hc
    refine habort.write hr (fun hactive => by cases hactive) fun p hp hid => ⟨by decide, by decide, fun _ => ?_⟩
    have hlookup := (h.busy p hp).running
    rw [hid] at hlookup
    show p.controller ∈ (q.running.lookup id).toList ++ q.aborted
    rw [hlookup]
    exact List.mem_append_left _ (List.mem_singleton_self _)

/-! ## Careful runs -/

instance {answer : Except Text Answer} : Decidable (Minded error q p answer) :=
  decidable_of_iff ((Interrupted q p.id → p.goesOn error answer = false) ∧
      (p.controller ∈ q.aborted → p.failsToStore error answer = true → tally p.id q.log = 0))
    ⟨fun h => ⟨h.1, h.2⟩, fun h => ⟨h.stops, h.settles⟩⟩

/-- A job is retried only if no other active one is of its file, and an answer reaches a cancelled job only if the job does
not go on with it, and a failure of the store only if none began since the last terminal status. -/
def Careful (error : StoreResult → Option Text) (w : Config IngestQueue Frame) : Move Call Frame Reply → Prop
  | .call ⟨.retry id, _, _⟩ => Retriable w.state id
  | .call _ => True
  | .resume (.process p) r => .process p ∈ w.pending → Minded error w.state p r.result
  | .resume _ _ => True

instance : Decidable (Careful error w m) := by
  unfold Careful
  split <;> infer_instance

theorem sound_step (hlone : Lone False w) (h : Sound w) (hcareful : Careful error w m) :
    Sound ((ingestion error).step m w) := by
  rcases (ingestion error).step_cases m w with ⟨c, rfl, heq⟩ | ⟨f, r, fs, rfl, hw, heq⟩ | heq
  · rw [heq]
    obtain ⟨request, now, client⟩ := c
    show Sound (after w.pending (IngestQueue.start ⟨request, now, client⟩ w.state))
    cases request with
    | enqueue id driveFileId fileName hints =>
      show Sound (after w.pending (w.state.enqueue id driveFileId fileName hints client now))
      unfold IngestQueue.enqueue
      split
      · exact sound_drain hlone h rfl (fun _ h => h) client now
      · next hfree =>
        split
        · rw [after_none]; exact h
        · next jobs hjobs =>
          refine sound_drain hlone h ?_ (fun b hb => hb.insert hjobs ?_) client now
          · rfl
          · exact fun i r hr ha => activeForFile_none hfree hr ha
    | retry id =>
      show Sound (after w.pending (w.state.retry id client now))
      unfold IngestQueue.retry
      split
      · rw [after_none]; exact h
      · next job hjob =>
        refine sound_drain hlone h ?_ (fun b hb => hb.retried hjob hcareful) client now
        rfl
    | cancel id =>
      show Sound (after w.pending (w.state.cancel id now, none))
      rw [after_none]
      exact h.map fun b hb => core_cancel hb id now
    | resume => exact sound_drain hlone h rfl (fun _ h => h) client now
  · rw [heq]
    obtain ⟨hfs, hcore⟩ : fs = 0 ∧ Core w.state f.process? := by
      rcases h with ⟨hzero, -⟩ | ⟨g, hg, hcore⟩
      · rw [hw] at hzero
        exact absurd hzero (Multiset.cons_ne_zero)
      · rw [hw] at hg
        obtain ⟨rfl, hfs⟩ := (Multiset.singleton_eq_cons_iff fs).1 hg.symm
        exact ⟨hfs, hcore⟩
    rw [hfs]
    refine sound_after ?_
    cases f with
    | process p => exact core_resume hcore r.now (hcareful (hw ▸ Multiset.mem_cons_self _ _))
    | processed => exact core_loop hcore r.client r.now
    | failed => exact hcore.draining false
  · rw [heq]
    exact h

/-! ## A cancelled job -/

/-- How often the store of a job was begun. -/
def stores (id : Text) (log : List Event) : Nat := log.count (.store id)

theorem stores_status (id i : Text) (s : IngestStatus) (log : List Event) : stores id (log ++ [.status i s]) = stores id log := by
  unfold stores
  rw [List.count_append, List.count_singleton]
  simp

/-- What a segment leaves of a job: its file, its status and its stores. -/
structure Spared (id : Text) (q q' : IngestQueue) : Prop where
  alike : Alike q q' id
  stores : stores id q'.log = stores id q.log

theorem Spared.refl : Spared id q q := ⟨rfl, rfl⟩

theorem Spared.trans {q₁ q₂ q₃ : IngestQueue} (h : Spared id q₁ q₂) (h' : Spared id q₂ q₃) : Spared id q₁ q₃ :=
  ⟨h'.alike.trans h.alike, h'.stores.trans h.stores⟩

theorem Spared.interrupted (h : Spared id q q') (hi : Interrupted q id) : Interrupted q' id := by
  obtain ⟨r, hr, hs⟩ := interrupted_iff.1 hi
  obtain ⟨r', hr', -, hs'⟩ := h.alike.some hr
  exact interrupted_iff.2 ⟨r', hr', hs'.trans hs⟩

theorem spared_updateStatus {i : Text} (hi : i ≠ id) : Spared id q (q.updateStatus i s patch now) :=
  ⟨alike_updateStatus (Ne.symm hi), stores_status id i s q.log⟩

theorem spared_startJob (hi : job.id ≠ id) (client : Client) (now : Int) : Spared id q (q.startJob job client now).1 := by
  unfold startJob
  split
  · exact spared_updateStatus hi
  · exact .refl
  · exact ⟨rfl, rfl⟩

/-- The loop starts no job that is interrupted. -/
theorem spared_loop (h : Interrupted q id) (client : Client) (now : Int) : Spared id q (q.loop client now).1 := by
  unfold loop
  split
  · exact ⟨rfl, rfl⟩
  · next job hjob =>
    obtain ⟨hmem, hqueued⟩ := nextQueued_spec hjob
    refine spared_startJob (fun hid => ?_) client now
    obtain ⟨r, hr, hs⟩ := interrupted_iff.1 h
    rw [← hid, get_of_mem hmem] at hr
    rw [← Option.some.inj hr, hqueued] at hs
    cases hs

theorem spared_drain (h : Interrupted q id) (client : Client) (now : Int) : Spared id q (q.drain client now).1 := by
  unfold drain
  split
  · exact .refl
  · have hloop := @spared_loop { q with draining := true } id h client now
    exact ⟨hloop.alike, hloop.stores⟩

theorem Work.spared (h : Work p q q') (hid : p.id ≠ id) : Spared id q q' := by
  induction h with
  | start => exact .refl
  | update patch now _ ih => exact ih.trans ⟨alike_update patch now id, rfl⟩
  | write _ patch now _ ih => exact ih.trans (spared_updateStatus hid)

theorem spared_fail (h : p.id = id → p.controller ∈ q.aborted) (message : Text) (now : Int) :
    Spared id q (p.fail q message now).1 := by
  unfold Process.fail
  split
  · exact ⟨rfl, rfl⟩
  · next hlive =>
    have hid : p.id ≠ id := fun hid => hlive (List.contains_iff_mem.2 (h hid))
    exact (spared_updateStatus hid).trans ⟨rfl, rfl⟩

/-- A segment of a job leaves the others alone, and a cancelled one, too. -/
theorem spared_resume {answer : Except Text Answer} (h : Core q (some p)) (hi : Interrupted q id)
    (hminded : Minded error q p answer) (now : Int) : Spared id q (p.resume error q answer now).1 := by
  have hstops : p.id = id → p.goesOn error answer = false ∧ p.controller ∈ q.aborted := by
    intro hid
    rw [← hid] at hi
    obtain ⟨-, ⟨r, hr, -, -, hcancelled⟩, -⟩ := h.busy p rfl
    obtain ⟨r', hr', hs⟩ := interrupted_iff.1 hi
    rw [hr] at hr'
    exact ⟨hminded.stops hi, hcancelled (Option.some.inj hr' ▸ hs)⟩
  have hother : p.goesOn error answer = true → p.id ≠ id := fun hgoes hid => by
    rw [(hstops hid).1] at hgoes
    cases hgoes
  generalize hseg : p.resume error q answer now = seg
  have houtcome := @resume_outcome q p error answer now
  rw [hseg] at houtcome
  cases houtcome with
  | waits halike hlog => exact ⟨halike id, congrArg (stores id) hlog⟩
  | goes hgoes _ hwork => exact hwork.spared (hother hgoes)
  | begins hgoes =>
    refine ⟨rfl, ?_⟩
    show stores id (q.log ++ [.store p.id]) = _
    unfold stores
    rw [List.count_append, List.count_singleton]
    simp [hother hgoes]
  | ends hgoes => exact (spared_updateStatus (hother hgoes)).trans ⟨rfl, rfl⟩
  | @fails q' message now hwork =>
    rcases hwork with rfl | ⟨hgoes, hwork⟩
    · exact spared_fail (fun hid => (hstops hid).2) message now
    · exact (hwork.spared (hother hgoes)).trans (spared_fail (fun hid => absurd hid (hother hgoes)) message now)

/-- A job's row, and whether it is cancelled again. -/
theorem spared_cancel (hi : Interrupted q id) (i : Text) (now : Int) :
    Interrupted (q.cancel i now) id ∧ stores id (q.cancel i now).log = stores id q.log := by
  unfold IngestQueue.cancel
  split
  · exact ⟨hi, rfl⟩
  · refine ⟨?_, stores_status id i .interrupted q.log⟩
    by_cases hid : i = id
    · subst hid
      obtain ⟨r, hr, -⟩ := interrupted_iff.1 hi
      obtain ⟨r', hr', -, hs⟩ := @get_written q i .interrupted _ now r hr
      exact interrupted_iff.2 ⟨r', hr', hs⟩
    · exact (spared_updateStatus hid).interrupted hi

/-- The job is retried. -/
def Retries (id : Text) : Move Call Frame Reply → Prop
  | .call ⟨.retry i, _, _⟩ => i = id
  | _ => False

instance : Decidable (Retries id m) := by
  unfold Retries
  split <;> infer_instance

theorem interrupted_step (h : Sound w) (hcareful : Careful error w m) (hm : ¬Retries id m) (hi : Interrupted w.state id) :
    Interrupted ((ingestion error).step m w).state id ∧
      stores id ((ingestion error).step m w).state.log = stores id w.state.log := by
  have hspared : ∀ q', Spared id w.state q' → Interrupted q' id ∧ stores id q'.log = stores id w.state.log :=
    fun q' hq => ⟨hq.interrupted hi, hq.stores⟩
  rcases (ingestion error).step_cases m w with ⟨c, rfl, heq⟩ | ⟨f, r, fs, rfl, hw, heq⟩ | heq
  · rw [heq]
    obtain ⟨request, now, client⟩ := c
    cases request with
    | enqueue i driveFileId fileName hints =>
      refine hspared (w.state.enqueue i driveFileId fileName hints client now).1 ?_
      unfold IngestQueue.enqueue
      split
      · exact spared_drain hi client now
      · split
        · exact .refl
        · next jobs hjobs =>
          have hnew : Spared id w.state { w.state with jobs := jobs, log := w.state.log ++ [Event.status i .queued] } := by
            refine ⟨?_, stores_status id i .queued w.state.log⟩
            obtain ⟨r, hr, -⟩ := interrupted_iff.1 hi
            unfold Alike
            rw [get_insert hjobs, hr, Option.some_or]
          exact hnew.trans (spared_drain (hnew.interrupted hi) client now)
    | retry i =>
      refine hspared (w.state.retry i client now).1 ?_
      unfold IngestQueue.retry
      split
      · exact .refl
      · have hother := @spared_updateStatus w.state id .queued
        exact (hother hm).trans (spared_drain ((hother hm).interrupted hi) client now)
    | cancel i => exact spared_cancel hi i now
    | resume => exact hspared _ (spared_drain hi client now)
  · rw [heq]
    have hcore : Core w.state f.process? := by
      rcases h with ⟨hzero, -⟩ | ⟨g, hg, hcore⟩
      · rw [hw] at hzero
        exact absurd hzero Multiset.cons_ne_zero
      · rw [hw] at hg
        obtain ⟨rfl, -⟩ := (Multiset.singleton_eq_cons_iff fs).1 hg.symm
        exact hcore
    refine hspared (IngestQueue.resume error f r w.state).1 ?_
    cases f with
    | process p => exact spared_resume hcore hi (hcareful (hw ▸ Multiset.mem_cons_self _ _)) r.now
    | processed => exact spared_loop hi r.client r.now
    | failed => exact ⟨rfl, rfl⟩
  · rw [heq]
    exact ⟨hi, rfl⟩

/-! ## Runs -/

/-- No two active jobs are of one file. -/
def Single (q : IngestQueue) : Prop :=
  ∀ r ∈ q.jobs.rows, ∀ r' ∈ q.jobs.rows, r.status.isActive = true → r'.status.isActive = true →
    r.driveFileId = r'.driveFileId → r = r'

instance : Decidable (Single q) :=
  inferInstanceAs (Decidable (∀ r ∈ q.jobs.rows, ∀ r' ∈ q.jobs.rows, r.status.isActive = true → r'.status.isActive = true →
    r.driveFileId = r'.driveFileId → r = r'))

/-- Between its enqueue or retry and its next terminal status a job is stored at most once. -/
def StoredOnce (log : List Event) : Prop :=
  ∀ id before during after, log = before ++ .status id .queued :: during ++ after →
    (∀ s, .status id s ∈ during → s.isTerminal = false) → stores id during ≤ 1

theorem tally_append (id : Text) (log during : List Event) (h : ∀ s, .status id s ∈ during → s.isTerminal = false) :
    tally id (log ++ during) = tally id log + stores id during := by
  induction during using List.reverseRecOn with
  | nil => rw [List.append_nil]; rfl
  | append_singleton during e ih =>
    have ih := ih fun s hs => h s (List.mem_append_left _ hs)
    rw [← List.append_assoc]
    cases e with
    | status i s =>
      rw [tally_status, stores_status, if_neg, ih]
      rintro ⟨rfl, hterminal⟩
      rw [h s (List.mem_append_right _ (List.mem_singleton_self _))] at hterminal
      cases hterminal
    | store i =>
      rw [tally_store, ih]
      unfold stores
      rw [List.count_append, List.count_singleton]
      by_cases hi : i = id <;> simp [hi, Nat.add_assoc]

theorem Once.storedOnce {log : List Event} (h : Once log) : StoredOnce log := by
  intro id before during after hlog hduring
  have hqueued : ∀ s, Event.status id s ∈ Event.status id .queued :: during → s.isTerminal = false := by
    intro s hs
    rcases List.mem_cons.1 hs with heq | hs
    · cases heq
      rfl
    · exact hduring s hs
  have hle := h id (before ++ .status id .queued :: during) after hlog
  rw [tally_append id before _ hqueued] at hle
  have hcount : stores id (.status id .queued :: during) = stores id during := by
    unfold stores
    rw [List.count_cons]
    simp
  omega

theorem Base.single (h : Base q) : Single q := by
  intro r hr r' hr' hactive hactive' hfile
  have hid := h.files r.id r'.id r r' (get_of_mem hr) (get_of_mem hr') hactive hactive' hfile
  have hget := get_of_mem hr
  rw [hid, get_of_mem hr'] at hget
  exact (Option.some.inj hget).symm

/-- The jobs of a store that was opened. -/
theorem core_opened {jobs : Table JobRow} (h : Single { jobs := jobs }) : Core { jobs := jobs } none where
  ids e he := by cases he
  files i j r r' hr hr' ha ha' hfile := by
    obtain ⟨hmem, hid⟩ := get_spec hr
    obtain ⟨hmem', hid'⟩ := get_spec hr'
    rw [← hid, ← hid', h r hmem r' hmem' ha ha' hfile]
  once id before after heq := by
    rw [(List.append_eq_nil_iff.1 heq.symm).1]
    exact Nat.zero_le 1
  rest _ _ := rfl
  busy _ hp := by cases hp

theorem lone_run {moves : List (Move Call Frame Reply)} {made : Prop} (h : Lone made w)
    (hmade : made → (ingestion error).Along (fun w _ => Frame.failed ∉ w.pending) moves w) :
    Lone made ((ingestion error).run moves w) := by
  induction moves generalizing w with
  | nil => exact h
  | cons m moves ih => exact ih (lone_step h m fun hm => (hmade hm).1) fun hm => (hmade hm).2

theorem sound_run {moves : List (Move Call Frame Reply)} (hlone : Lone False w) (h : Sound w)
    (hmoves : (ingestion error).Along (Careful error) moves w) : Sound ((ingestion error).run moves w) := by
  induction moves generalizing w with
  | nil => exact h
  | cons m moves ih => exact ih (lone_step hlone m False.elim) (sound_step hlone h hmoves.1) hmoves.2

theorem interrupted_run {moves : List (Move Call Frame Reply)} (hlone : Lone False w) (h : Sound w)
    (hmoves : (ingestion error).Along (Careful error) moves w) (hretried : ∀ m ∈ moves, ¬Retries id m)
    (hi : Interrupted w.state id) : Interrupted ((ingestion error).run moves w).state id ∧
      stores id ((ingestion error).run moves w).state.log = stores id w.state.log := by
  induction moves generalizing w with
  | nil => exact ⟨hi, rfl⟩
  | cons m moves ih =>
    obtain ⟨hi', hstores⟩ := interrupted_step h hmoves.1 (hretried m List.mem_cons_self) hi
    obtain ⟨hlast, hrest⟩ := ih (lone_step hlone m False.elim) (sound_step hlone h hmoves.1) hmoves.2
      (fun m hm => hretried m (List.mem_cons_of_mem _ hm)) hi'
    exact ⟨hlast, hrest.trans hstores⟩

theorem interrupted_cancel (h : (q.get id).isSome = true) (now : Int) :
    Interrupted (q.cancel id now) id ∧ stores id (q.cancel id now).log = stores id q.log := by
  obtain ⟨r, hr⟩ := Option.isSome_iff_exists.1 h
  unfold IngestQueue.cancel
  simp only [hr]
  obtain ⟨r', hr', -, hs⟩ := @get_written q id .interrupted _ now r hr
  exact ⟨interrupted_iff.2 ⟨r', hr', hs⟩, stores_status id id .interrupted q.log⟩

/-- **The life of ingestion jobs**, over the runs of a queue on the store it opened: one job is worked on at a time, and
nothing stays queued once the queue was resumed. Along a careful run no two active jobs are of one file, a cancelled job
stays cancelled and begins no store until it is retried, and no job is stored twice before it ends. -/
theorem careful_lifecycle (error : StoreResult → Option Text) (t : Table JobRow) (now : Int)
    (moves : List (Move Call Frame Reply)) :
    let w₀ : Config IngestQueue Frame := ⟨{ jobs := opened t now }, 0⟩
    let w := (ingestion error).run moves w₀
    (w.pending.card ≤ 1 ∧
      (((∀ r ∈ t.rows, r.status ≠ .queued) ∨ ∃ now client rest, moves = .call ⟨.resume, now, client⟩ :: rest) →
        (ingestion error).Along (fun w _ => Frame.failed ∉ w.pending) moves w₀ → w.pending = 0 →
        ∀ r ∈ w.state.jobs.rows, r.status ≠ .queued)) ∧
    (Single w₀.state → (ingestion error).Along (Careful error) moves w₀ →
      Single w.state ∧
      (∀ before after id now client, moves = before ++ .call ⟨.cancel id, now, client⟩ :: after →
        (((ingestion error).run before w₀).state.get id).isSome = true → (∀ m ∈ after, ¬Retries id m) →
        Interrupted w.state id ∧ stores id w.state.log = stores id ((ingestion error).run before w₀).state.log) ∧
      StoredOnce w.state.log) := by
  intro w₀ w
  have hlone : Lone False w₀ := ⟨fun _ => ⟨rfl, False.elim⟩, fun h => by cases h⟩
  refine ⟨⟨(lone_run hlone False.elim).card, fun hstart hmade hw r hr => ?_⟩, fun hsingle hcareful => ?_⟩
  · have hdrained : Lone True w := by
      rcases hstart with hempty | ⟨now, client, rest, rfl⟩
      · refine lone_run ⟨fun _ => ⟨rfl, fun _ id r hr => ?_⟩, fun h => by cases h⟩ fun _ => hmade
        obtain ⟨o, ho, rfl⟩ := List.mem_map.1 (get_spec hr).1
        split
        · exact fun h => by cases h
        · exact hempty o ho
      · exact @lone_run error _ rest True (lone_resume True rfl rfl now client) fun _ => hmade.2
    exact hdrained.nothing_queued trivial hw (get_of_mem hr)
  · have hsound : Sound w₀ := Or.inl ⟨rfl, core_opened hsingle⟩
    have hbase : Base w.state := by
      rcases sound_run hlone hsound hcareful with ⟨-, h⟩ | ⟨f, -, h⟩
      · exact h.toBase
      · exact h.toBase
    refine ⟨hbase.single, ?_, hbase.once.storedOnce⟩
    intro before after id now client hmoves hsome hretried
    rw [hmoves, along_append] at hcareful
    obtain ⟨hbefore, hcancel, hafter⟩ := hcareful
    have hv := @lone_run error w₀ before False hlone False.elim
    obtain ⟨hi, hstores⟩ := interrupted_cancel hsome now
    obtain ⟨hlast, hrest⟩ := interrupted_run (lone_step hv _ False.elim)
      (sound_step hv (sound_run hlone hsound hbefore) hcancel) hafter hretried hi
    have hw : w = (ingestion error).run after ((ingestion error).step (.call ⟨.cancel id, now, client⟩)
        ((ingestion error).run before w₀)) := by
      show (ingestion error).run moves w₀ = _
      rw [hmoves, run_append]
      rfl
    rw [hw]
    exact ⟨hlast, hrest.trans hstores⟩

/-! ## Examples -/

/-- The store as it is created. -/
def fresh : Config IngestQueue Frame := ⟨{ jobs := opened .empty 0 }, 0⟩

def note : DriveFile := { id := "f".toList, name := "note.txt".toList, mimeType := "text/plain".toList }

/-- The job `a` of the file, at a stage. -/
def jobAt (controller : Nat) (stage : Stage) : Frame := .process ⟨"a".toList, "f".toList, [], controller, none, stage⟩

def enqueueNote : Move Call Frame Reply := .call ⟨.enqueue "a".toList "f".toList "note.txt".toList [], 1, .ready none⟩

/-- The job is cancelled while it waits for its file, and the file fails. -/
def cancelled : List (Move Call Frame Reply) :=
  [enqueueNote, .call ⟨.cancel "a".toList, 2, .ready none⟩, .resume (jobAt 0 .file) ⟨.error "aborted".toList, 3, .ready none⟩,
    .resume .processed ⟨.ok .engine, 4, .ready none⟩]

theorem cancelled_lifecycle : Single ((ingestion fun _ => none).run cancelled fresh).state ∧
    ((ingestion fun _ => none).run cancelled fresh).pending = 0 ∧
    ∀ r ∈ ((ingestion fun _ => none).run cancelled fresh).state.jobs.rows, r.status ≠ .queued :=
  have hzero : ((ingestion fun _ => none).run cancelled fresh).pending = 0 := by decide +kernel
  have hlife := careful_lifecycle (fun _ => none) .empty 0 cancelled
  ⟨(hlife.2 (by decide +kernel) (by decide +kernel)).1, hzero,
    hlife.1.2 (Or.inl (by decide +kernel)) (by decide +kernel) hzero⟩

/-- A job is cancelled, another one of its file is queued, and the first is retried. -/
def retriedBeside : List (Move Call Frame Reply) :=
  [enqueueNote, .call ⟨.cancel "a".toList, 2, .ready none⟩,
    .call ⟨.enqueue "b".toList "f".toList "note.txt".toList [], 3, .ready none⟩, .call ⟨.retry "a".toList, 4, .ready none⟩]

/-- A job is cancelled while it waits for its file. -/
def cancelledWaiting : List (Move Call Frame Reply) := [enqueueNote, .call ⟨.cancel "a".toList, 2, .ready none⟩]

def fileArrives : Move Call Frame Reply := .resume (jobAt 0 .file) ⟨.ok (.file note), 3, .ready none⟩

/-- A job is cancelled and retried while it waits for the engine; then the store fails, and the job runs again. -/
def storedTwice : List (Move Call Frame Reply) :=
  let link := "https://drive.google.com/file/d/f/view".toList
  let content := contentOf .document note link none "text".toList
  let again := contentOf .mediaArtifact note link none "text".toList
  [enqueueNote, .resume (jobAt 0 .file) ⟨.ok (.file note), 2, .ready none⟩,
    .resume (jobAt 0 (.document note link)) ⟨.ok (.text "text".toList), 3, .ready none⟩,
    .call ⟨.cancel "a".toList, 4, .ready none⟩, .call ⟨.retry "a".toList, 5, .ready none⟩,
    .resume (jobAt 0 (.engine note content)) ⟨.ok .engine, 6, .ready none⟩,
    .resume (jobAt 0 (.store note)) ⟨.error "push failed".toList, 7, .ready none⟩,
    .resume .processed ⟨.ok .engine, 8, .ready none⟩, .resume (jobAt 1 .file) ⟨.ok (.file note), 9, .ready none⟩,
    .resume (jobAt 1 (.engine note again)) ⟨.ok .engine, 10, .ready none⟩]

/-- What the calls promise, at three runs that break it. -/
theorem lifecycle_broken : ¬Single ((ingestion fun _ => none).run retriedBeside fresh).state ∧
    (Interrupted ((ingestion fun _ => none).run cancelledWaiting fresh).state "a".toList ∧
      ¬Interrupted ((ingestion fun _ => none).run (cancelledWaiting ++ [fileArrives]) fresh).state "a".toList) ∧
    ¬StoredOnce ((ingestion fun _ => none).run storedTwice fresh).state.log := by
  refine ⟨by decide +kernel, by decide +kernel, fun h => ?_⟩
  have hlog : ((ingestion fun _ => none).run storedTwice fresh).state.log =
      [.status "a".toList .queued, .status "a".toList .downloading, .status "a".toList .filing,
        .status "a".toList .interrupted] ++ .status "a".toList .queued ::
      [.store "a".toList, .status "a".toList .downloading, .status "a".toList .filing, .store "a".toList] ++ [] := by
    decide +kernel
  have hle := h "a".toList _ _ _ hlog fun s hs => by
    simp only [List.mem_cons, List.not_mem_nil, or_false, reduceCtorEq, Event.status.injEq, true_and, false_or] at hs
    rcases hs with rfl | rfl <;> rfl
  revert hle
  decide +kernel

end Zenod.Ingest
