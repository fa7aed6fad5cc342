/-
What a segment of the ingestion does: the statuses it writes and the store it
begins (`Outcome`), and what that means for the jobs (`Core`).
-/
import Zenod.Ingest.Queue

namespace Zenod.Ingest

open Keyed Text IngestQueue

variable {q q' q₁ : IngestQueue} {p : Process} {id : Text} {s : IngestStatus} {patch : Patch} {now : Int} {r r' : JobRow}
  {error : StoreResult → Option Text} {answer : Except Text Answer} {client : Client}

/-! ## Rows -/

theorem identifies_id (id : Text) : Table.Identifies fun r : JobRow => decide (r.id = id) := by
  intro a b ha hb
  rw [decide_eq_true_eq] at ha hb
  show (a.id == b.id) = true
  rw [ha, hb, beq_self_eq_true]

theorem get_spec (h : q.get id = some r) : r ∈ q.jobs.rows ∧ r.id = id := by
  unfold IngestQueue.get at h
  have hid := List.find?_some h
  rw [decide_eq_true_eq] at hid
  exact ⟨List.mem_of_find?_eq_some h, hid⟩

theorem get_of_mem (h : r ∈ q.jobs.rows) : q.get r.id = some r :=
  Table.find?_of_mem (identifies_id r.id) h (decide_eq_true rfl)

theorem get_update (id : Text) (patch : Patch) (now : Int) (j : Text) : (q.update id patch now).get j =
    (q.get j).map fun r => if r.id = id then { patch.apply r with updatedAt := now } else r := by
  have hfind := @Table.find?_update _ _ q.jobs (·.id = id) (·.id = j) (fun r => { patch.apply r with updatedAt := now })
    (fun r r' => congrArg (· == r'.id) (patch.id r)) fun r => by simp only [patch.id]
  simp only [decide_eq_true_eq] at hfind
  exact hfind

theorem get_updateStatus (id : Text) (s : IngestStatus) (patch : Patch) (now : Int) (j : Text) :
    (q.updateStatus id s patch now).get j =
      (q.get j).map fun r => if r.id = id then { patch.apply r with status := s, updatedAt := now } else r := by
  have hfind := @Table.find?_update _ _ q.jobs (·.id = id) (·.id = j)
    (fun r => { patch.apply r with status := s, updatedAt := now }) (fun r r' => congrArg (· == r'.id) (patch.id r))
    fun r => by simp only [patch.id]
  simp only [decide_eq_true_eq] at hfind
  exact hfind

/-- What a job keeps as long as no status is written: its file and its status. -/
def Alike (q q' : IngestQueue) (id : Text) : Prop :=
  (q'.get id).map (fun r => (r.driveFileId, r.status)) = (q.get id).map fun r => (r.driveFileId, r.status)

theorem alike_update (patch : Patch) (now : Int) (j : Text) : Alike q (q.update id patch now) j := by
  unfold Alike
  rw [get_update, Option.map_map]
  refine congrArg (fun f => (q.get j).map f) (funext fun r => ?_)
  simp only [Function.comp]
  split
  · exact Prod.ext (patch.driveFileId r) (patch.status r)
  · rfl

theorem alike_updateStatus {j : Text} (h : j ≠ id) : Alike q (q.updateStatus id s patch now) j := by
  unfold Alike
  rw [get_updateStatus]
  cases hj : q.get j with
  | none => rfl
  | some r => rw [Option.map_some, if_neg (by rw [(get_spec hj).2]; exact h)]

theorem get_written (h : q.get id = some r) :
    ∃ r', (q.updateStatus id s patch now).get id = some r' ∧ r'.driveFileId = r.driveFileId ∧ r'.status = s := by
  rw [get_updateStatus, h, Option.map_some, if_pos (get_spec h).2]
  exact ⟨_, rfl, patch.driveFileId r, rfl⟩

theorem Alike.some {j : Text} (h : Alike q q' j) (hr : q.get j = some r) :
    ∃ r', q'.get j = some r' ∧ r'.driveFileId = r.driveFileId ∧ r'.status = r.status := by
  unfold Alike at h
  rw [hr, Option.map_some] at h
  obtain ⟨r', hr', heq⟩ := Option.map_eq_some_iff.1 h
  exact ⟨r', hr', congrArg Prod.fst heq, congrArg Prod.snd heq⟩

/-! ## The log -/

def Event.job : Event → Text
  | .status id _ => id
  | .store id => id

def IngestStatus.isTerminal : IngestStatus → Bool
  | .done | .error | .interrupted => true
  | .queued | .downloading | .extracting | .transcribing | .filing => false

/-- How often the job was stored since its last terminal status. -/
def tally (id : Text) (log : List Event) : Nat :=
  log.foldl (fun n e =>
    match e with
    | .status i s => if i = id ∧ s.isTerminal = true then 0 else n
    | .store i => if i = id then n + 1 else n) 0

theorem tally_status (id : Text) (log : List Event) (i : Text) (s : IngestStatus) :
    tally id (log ++ [.status i s]) = if i = id ∧ s.isTerminal = true then 0 else tally id log := by
  unfold tally
  rw [List.foldl_append]
  rfl

theorem tally_store (id : Text) (log : List Event) (i : Text) :
    tally id (log ++ [.store i]) = if i = id then tally id log + 1 else tally id log := by
  unfold tally
  rw [List.foldl_append]
  rfl

/-- No job was ever stored twice without a terminal status in between. -/
def Once (log : List Event) : Prop := ∀ id before after, log = before ++ after → tally id before ≤ 1

theorem Once.snoc {log : List Event} {e : Event} (h : Once log) (he : ∀ id, tally id (log ++ [e]) ≤ 1) : Once (log ++ [e]) := by
  intro id before after heq
  rcases List.eq_nil_or_concat after with rfl | ⟨after, last, rfl⟩
  · rw [List.append_nil] at heq
    rw [← heq]
    exact he id
  · rw [List.concat_eq_append, ← List.append_assoc] at heq
    exact h id before after (List.append_inj' heq rfl).1

/-! ## What holds between two segments -/

/-- The stages before the store. -/
def Stage.isEarly : Stage → Bool
  | .store _ | .folder _ _ | .move _ _ => false
  | _ => true

/-- The job on its way: its controller is the one that a cancellation finds, its status is not terminal, unless it was
cancelled, and it is not stored yet at an early stage. -/
structure Busy (q : IngestQueue) (p : Process) : Prop where
  running : q.running.lookup p.id = some p.controller
  row : ∃ r, q.get p.id = some r ∧ r.status ≠ .done ∧ r.status ≠ .error ∧
    (r.status = .interrupted → p.controller ∈ q.aborted)
  early : p.stage.isEarly = true → tally p.id q.log = 0

/-- The jobs: what the log names is there, no two active ones are of one file, and none was stored twice. -/
structure Base (q : IngestQueue) : Prop where
  ids : ∀ e ∈ q.log, (q.get e.job).isSome = true
  files : ∀ i j r r', q.get i = some r → q.get j = some r' → r.status.isActive = true → r'.status.isActive = true →
    r.driveFileId = r'.driveFileId → i = j
  once : Once q.log

/-- The jobs between two segments, with the one on its way. -/
structure Core (q : IngestQueue) (b : Option Process) : Prop extends Base q where
  rest : ∀ id, (∀ p, b = some p → p.id ≠ id) → tally id q.log = 0
  busy : ∀ p, b = some p → Busy q p

/-- A state of the same jobs and the same log. -/
theorem Core.of_alike {b : Option Process} (h : Core q b) (halike : ∀ j, Alike q q' j) (hlog : q'.log = q.log)
    (hrunning : ∀ p, b = some p → q'.running.lookup p.id = q.running.lookup p.id) (haborted : ∀ c ∈ q.aborted, c ∈ q'.aborted) :
    Core q' b where
  ids e he := by
    rw [hlog] at he
    obtain ⟨r, hr⟩ := Option.isSome_iff_exists.1 (h.ids e he)
    obtain ⟨r', hr', -⟩ := (halike e.job).some hr
    rw [hr']
    rfl
  files i j r r' hr hr' ha ha' hfile := by
    obtain ⟨o, ho, hf, hs⟩ := @Alike.some q' q r i (halike i).symm hr
    obtain ⟨o', ho', hf', hs'⟩ := @Alike.some q' q r' j (halike j).symm hr'
    exact h.files i j o o' ho ho' (by rwa [hs]) (by rwa [hs']) (by rw [hf, hf', hfile])
  once := by rw [hlog]; exact h.once
  rest id hid := by rw [hlog]; exact h.rest id hid
  busy p hp := by
    obtain ⟨hlookup, ⟨r, hr, hdone, herror, hcancelled⟩, hearly⟩ := h.busy p hp
    obtain ⟨r', hr', -, hs⟩ := (halike p.id).some hr
    refine ⟨(hrunning p hp).trans hlookup, ⟨r', hr', ?_, ?_, fun hi => haborted _ (hcancelled (hs ▸ hi))⟩, ?_⟩
    · rwa [hs]
    · rwa [hs]
    · rw [hlog]
      exact hearly

/-- A status is written: it is active only if the job was, or if its file has no other. -/
theorem Base.write (h : Base q) (hr : q.get id = some r) (hactive : s.isActive = true → r.status.isActive = true ∨
      ∀ j r', q.get j = some r' → r'.status.isActive = true → r'.driveFileId = r.driveFileId → j = id) :
    Base (q.updateStatus id s patch now) where
  ids e he := by
    have hsome : ∀ j, (q.get j).isSome = true → ((q.updateStatus id s patch now).get j).isSome = true := by
      intro j hj
      rw [get_updateStatus, Option.isSome_map]
      exact hj
    rcases List.mem_append.1 he with he | he
    · exact hsome e.job (h.ids e he)
    · rw [List.mem_singleton.1 he]
      exact hsome id (by rw [hr]; rfl)
  files i j a a' ha ha' hacta hacta' hfile := by
    obtain ⟨w, hw, hwfile, hwstatus⟩ := @get_written q id s patch now r hr
    -- what is active is the job that is written, or was active before
    have hbefore : ∀ k x, (q.updateStatus id s patch now).get k = some x → x.status.isActive = true →
        k = id ∨ ∃ y, q.get k = some y ∧ y.status.isActive = true ∧ y.driveFileId = x.driveFileId := by
      intro k x hx hactx
      by_cases hk : k = id
      · exact Or.inl hk
      · obtain ⟨y, hy, hyfile, hystatus⟩ := @Alike.some _ q x k (alike_updateStatus hk).symm hx
        exact Or.inr ⟨y, hy, by rwa [hystatus], hyfile⟩
    have hmixed : ∀ k x, (q.updateStatus id s patch now).get k = some x → x.status.isActive = true → s.isActive = true →
        x.driveFileId = r.driveFileId → k = id := by
      intro k x hx hactx hs hxfile
      rcases hbefore k x hx hactx with hk | ⟨y, hy, hacty, hyfile⟩
      · exact hk
      · rcases hactive hs with hold | hfree
        · exact h.files k id y r hy hr hacty hold (hyfile.trans hxfile)
        · exact hfree k y hy hacty (hyfile.trans hxfile)
    have hwritten : ∀ x, (q.updateStatus id s patch now).get id = some x → x.status = s ∧ x.driveFileId = r.driveFileId := by
      intro x hx
      rw [hw, Option.some.injEq] at hx
      exact ⟨hx ▸ hwstatus, hx ▸ hwfile⟩
    by_cases hi : i = id
    · subst hi
      obtain ⟨hs, hf⟩ := hwritten a ha
      exact (hmixed j a' ha' hacta' (by rwa [← hs]) (hfile.symm.trans hf)).symm
    · by_cases hj : j = id
      · subst hj
        obtain ⟨hs, hf⟩ := hwritten a' ha'
        exact hmixed i a ha hacta (by rwa [← hs]) (hfile.trans hf)
      · obtain ⟨y, hy, hacty, hyfile⟩ := (hbefore i a ha hacta).resolve_left hi
        obtain ⟨y', hy', hacty', hyfile'⟩ := (hbefore j a' ha' hacta').resolve_left hj
        exact h.files i j y y' hy hy' hacty hacty' (by rw [hyfile, hyfile', hfile])
  once := by
    refine h.once.snoc fun j => ?_
    rw [tally_status]
    split
    · omega
    · exact h.once j q.log [] (List.append_nil _).symm

/-- A status is written, and the job on its way does not end by it. -/
theorem Core.write {b : Option Process} (h : Core q b) (hr : q.get id = some r)
    (hactive : s.isActive = true → r.status.isActive = true ∨
      ∀ j r', q.get j = some r' → r'.status.isActive = true → r'.driveFileId = r.driveFileId → j = id)
    (hbusy : ∀ p, b = some p → p.id = id → s ≠ .done ∧ s ≠ .error ∧ (s = .interrupted → p.controller ∈ q.aborted)) :
    Core (q.updateStatus id s patch now) b where
  toBase := h.toBase.write hr hactive
  rest j hj := by
    show tally j (q.log ++ [.status id s]) = 0
    rw [tally_status, h.rest j hj, ite_self]
  busy p hp := by
    obtain ⟨hlookup, ⟨o, ho, hdone, herror, hcancelled⟩, hearly⟩ := h.busy p hp
    refine ⟨hlookup, ?_, fun he => ?_⟩
    · by_cases hid : p.id = id
      · obtain ⟨w, hw, -, hwstatus⟩ := @get_written q id s patch now r hr
        obtain ⟨hd, he, hc⟩ := hbusy p hp hid
        exact ⟨w, by rw [hid]; exact hw, by rwa [hwstatus], by rwa [hwstatus], fun hi => hc (hwstatus ▸ hi)⟩
      · obtain ⟨w, hw, -, hwstatus⟩ := (@alike_updateStatus q id s patch now p.id hid).some ho
        exact ⟨w, hw, by rwa [hwstatus], by rwa [hwstatus], fun hi => hcancelled (hwstatus ▸ hi)⟩
    · show tally p.id (q.log ++ [.status id s]) = 0
      rw [tally_status, hearly he, ite_self]

/-! ## Segments of a job -/

namespace Process

variable (error p answer)

/-- The answer with which the job writes its next status or begins the store. -/
def goesOn : Bool :=
  match p.stage, answer with
  | .file, .ok (.file _) => true
  | .audio _ _, .ok .bytes => true
  | .transcription _ _, .ok (.transcript _ _) => true
  | .artifact _ _, .ok .bytes => true
  | .extraction _ _, .ok (.extraction _ _) => true
  | .document _ _, .ok (.text _) => true
  | .engine _ _, .ok .engine => true
  | .store file, .ok (.stored stored) =>
    (error stored).isNone && !(p.folderId.or (file.parents.bind List.head?)).any (· ≠ [])
  | .folder _ _, .error _ => true
  | .move _ _, .error _ => true
  | .move _ _, .ok .moved => true
  | _, _ => false

/-- The store failed, or answered without a valid receipt. -/
def failsToStore : Bool :=
  match p.stage, answer with
  | .store _, .error _ => true
  | .store _, .ok (.stored stored) => (error stored).isSome
  | _, _ => false

end Process

/-- What a segment does for its job on the way: updates, and statuses in flight. -/
inductive Work (p : Process) (q : IngestQueue) : IngestQueue → Prop
  | start : Work p q q
  | update {q₁ : IngestQueue} (patch : Patch) (now : Int) (h : Work p q q₁) : Work p q (q₁.update p.id patch now)
  | write {q₁ : IngestQueue} {s : IngestStatus} (hs : s.isInFlight = true) (patch : Patch) (now : Int) (h : Work p q q₁) :
    Work p q (q₁.updateStatus p.id s patch now)

/-- What a segment of a job does. -/
inductive Outcome (error : StoreResult → Option Text) (p : Process) (q : IngestQueue) (answer : Except Text Answer) :
    Segment → Prop
  /-- Its status stays. -/
  | waits {q' : IngestQueue} {stage : Stage} (h : ∀ j, Alike q q' j) (hlog : q'.log = q.log) (hrunning : q'.running = q.running)
    (haborted : q'.aborted = q.aborted) (hdraining : q'.draining = q.draining)
    (hstage : stage.isEarly = true → p.stage.isEarly = true) :
    Outcome error p q answer (q', p.awaits stage)
  | goes {q' : IngestQueue} {stage : Stage} (hgoes : p.goesOn error answer = true) (hearly : p.stage.isEarly = true)
    (h : Work p q q') : Outcome error p q answer (q', p.awaits stage)
  | begins {file : DriveFile} (hgoes : p.goesOn error answer = true) (hearly : p.stage.isEarly = true) :
    Outcome error p q answer ({ q with log := q.log ++ [Event.store p.id] }, p.awaits (.store file))
  | ends {patch : Patch} {now : Int} (hgoes : p.goesOn error answer = true) :
    Outcome error p q answer (p.finish (q.updateStatus p.id .done patch now))
  | fails {q' : IngestQueue} {message : Text} {now : Int} (h : q' = q ∨ p.goesOn error answer = true ∧ Work p q q')
    (hstore : p.stage.isEarly = true ∨ p.failsToStore error answer = true) :
    Outcome error p q answer (p.fail q' message now)

theorem Outcome.stays (stage : Stage) (h : stage.isEarly = true → p.stage.isEarly = true) :
    Outcome error p q answer (q, p.awaits stage) :=
  .waits (fun _ => rfl) rfl rfl rfl rfl h

theorem onFile_outcome (file : DriveFile) (now : Int) (hstage : p.stage = .file) (hgoes : p.goesOn error answer = true) :
    Outcome error p q answer (p.onFile q file now) := by
  have hearly : p.stage.isEarly = true := by rw [hstage]; rfl
  unfold Process.onFile
  simp only
  have hdownload := fun patch => @Work.write p q q .downloading rfl patch now .start
  split
  · exact .goes hgoes hearly (.write rfl _ _ (hdownload _))
  · split
    · exact .goes hgoes hearly (hdownload _)
    · split
      · exact .goes hgoes hearly (hdownload _)
      · split
        · exact .goes hgoes hearly (hdownload _)
        · exact .fails (Or.inr ⟨hgoes, hdownload _⟩) (Or.inl hearly)

theorem onStored_outcome {file : DriveFile} {stored : StoreResult} (now : Int) (hstage : p.stage = .store file)
    (hanswer : answer = .ok (.stored stored)) : Outcome error p q answer (p.onStored error q file stored now) := by
  subst hanswer
  unfold Process.onStored
  split
  · next message hmessage =>
    refine .fails (Or.inl rfl) (Or.inr ?_)
    simp only [Process.failsToStore, hstage, hmessage, Option.isSome_some]
  · next hvalid =>
    simp only
    split
    · refine .stays _ fun h => ?_
      cases h
    · next hroot =>
      refine .ends ?_
      simp only [Process.goesOn, hstage, hvalid, Option.isNone_none, Bool.true_and, Bool.not_eq_true'] at hroot ⊢
      exact Bool.not_eq_true _ ▸ hroot

/-- **What a segment of a job does.** -/
theorem resume_outcome (now : Int) : Outcome error p q answer (p.resume error q answer now) := by
  unfold Process.resume
  split
  · next hstage => exact .ends (by simp only [Process.goesOn, hstage])
  · next hstage => exact .ends (by simp only [Process.goesOn, hstage])
  · next hfolder hmove =>
    refine .fails (Or.inl rfl) ?_
    cases hstage : p.stage with
    | folder file stored => exact absurd hstage (hfolder file stored)
    | move file stored => exact absurd hstage (hmove file stored)
    | store file => exact Or.inr (by simp only [Process.failsToStore, hstage])
    | _ => exact Or.inl rfl
  · next hstage => exact onFile_outcome _ now hstage (by simp only [Process.goesOn, hstage])
  · next hstage =>
    exact .goes (by simp only [Process.goesOn, hstage]) (by rw [hstage]; rfl) (.write rfl _ _ .start)
  · next hstage =>
    have hsame : some (Frame.process p) = p.awaits p.stage := rfl
    rw [hsame]
    exact .waits (fun j => alike_update _ now j) rfl rfl rfl rfl id
  · next hstage =>
    exact .goes (by simp only [Process.goesOn, hstage]) (by rw [hstage]; rfl) (.write rfl _ _ (.update _ _ .start))
  · next hstage =>
    exact .goes (by simp only [Process.goesOn, hstage]) (by rw [hstage]; rfl) (.write rfl _ _ .start)
  · next hstage => exact .stays _ fun _ => by rw [hstage]; rfl
  · next hstage =>
    exact .goes (by simp only [Process.goesOn, hstage]) (by rw [hstage]; rfl) (.write rfl _ _ (.update _ _ .start))
  · next hstage =>
    exact .goes (by simp only [Process.goesOn, hstage]) (by rw [hstage]; rfl) (.write rfl _ _ (.update _ _ .start))
  · next hstage => exact .begins (by simp only [Process.goesOn, hstage]) (by rw [hstage]; rfl)
  · next hstage => exact onStored_outcome now hstage rfl
  · next hstage =>
    refine .stays _ fun h => ?_
    cases h
  · next hstage => exact .ends (by simp only [Process.goesOn, hstage])
  · have hsame : some (Frame.process p) = p.awaits p.stage := rfl
    rw [hsame]
    exact .stays _ fun h => h

end Zenod.Ingest
