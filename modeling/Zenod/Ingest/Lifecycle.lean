/-
The life of an ingestion: what every segment keeps, and what a run of calls
keeps that is careful (`Careful`).
-/
import Zenod.Ingest.Segments

namespace Zenod.Ingest

open Keyed Text IngestQueue Interleaving

variable {q q' q₁ : IngestQueue} {p : Process} {id : Text} {s : IngestStatus} {patch : Patch} {now : Int} {r r' job : JobRow}
  {error : StoreResult → Option Text} {answer : Except Text Answer} {client : Client} {b : Option Process} {made : Prop}
  {w : Config IngestQueue Frame} {f : Frame}

/-! ## What is queued -/

theorem nextQueued_spec (h : q.nextQueued = some job) : job ∈ q.jobs.rows ∧ job.status = .queued := by
  have hmem := List.mem_of_mem_head? (Option.mem_def.2 h)
  rw [List.mem_insertionSort, List.mem_filter] at hmem
  exact ⟨hmem.1, of_decide_eq_true hmem.2⟩

theorem nextQueued_none (h : q.nextQueued = none) (hr : q.get id = some r) : r.status ≠ .queued := by
  intro hqueued
  unfold nextQueued at h
  rw [List.head?_eq_none_iff] at h
  have hmem : r ∈ (q.jobs.rows.filter (·.status = .queued)).insertionSort fun a b => a.createdAt ≤ b.createdAt :=
    (List.mem_insertionSort _).2 (List.mem_filter.2 ⟨(get_spec hr).1, decide_eq_true hqueued⟩)
  rw [h] at hmem
  cases hmem

theorem activeForFile_none {driveFileId : Text} (h : q.activeForFile driveFileId = none) (hr : q.get id = some r)
    (hactive : r.status.isActive = true) : r.driveFileId ≠ driveFileId := by
  intro hfile
  unfold activeForFile at h
  rw [List.head?_eq_none_iff] at h
  have hmem : r ∈ (q.jobs.rows.filter fun r => r.driveFileId = driveFileId && r.status.isActive).insertionSort
      fun a b => b.createdAt ≤ a.createdAt :=
    (List.mem_insertionSort _).2 (List.mem_filter.2 ⟨(get_spec hr).1, by rw [hactive, decide_eq_true hfile]; rfl⟩)
  rw [h] at hmem
  cases hmem

/-! ## One loop -/

/-- The loop is at rest, with nothing queued if no client failed, or it waits once. -/
structure Lone (made : Prop) (w : Config IngestQueue Frame) : Prop where
  idle : w.state.draining = false → w.pending = 0 ∧ (made → ∀ id r, w.state.get id = some r → r.status ≠ .queued)
  busy : w.state.draining = true → ∃ f, w.pending = {f}

theorem startJob_draining (job : JobRow) (client : Client) (now : Int) :
    (q.startJob job client now).1.draining = q.draining ∧ ∃ f, (q.startJob job client now).2 = some f := by
  unfold startJob
  split <;> exact ⟨rfl, _, rfl⟩

theorem lone_loop (made : Prop) (h : q.draining = true) (client : Client) (now : Int) :
    Lone made (after 0 (q.loop client now)) := by
  unfold loop
  split
  · next hnone =>
    rw [after_none]
    exact ⟨fun _ => ⟨rfl, fun _ _ _ hr => nextQueued_none hnone hr⟩, fun h => (by cases h)⟩
  · next job _ =>
    obtain ⟨hdraining, f, hf⟩ := @startJob_draining q job client now
    rw [show q.startJob job client now = ((q.startJob job client now).1, some f) from Prod.ext rfl hf, after_some]
    refine ⟨fun hidle => ?_, fun _ => ⟨f, rfl⟩⟩
    rw [hdraining, h] at hidle
    cases hidle

/-- A call that drains, behind what it did to the jobs. -/
theorem lone_drain (h : Lone made w) (hq : q.draining = w.state.draining) (client : Client) (now : Int) :
    Lone made (after w.pending (q.drain client now)) := by
  unfold drain
  split
  · next hdraining =>
    rw [after_none]
    refine ⟨fun hidle => ?_, fun _ => h.busy (hq ▸ hdraining)⟩
    rw [hdraining] at hidle
    cases hidle
  · next hidle =>
    rw [Bool.not_eq_true] at hidle
    rw [(h.idle (hq ▸ hidle)).1]
    exact lone_loop made rfl client now

/-- The first call to a store with queued jobs. -/
theorem lone_resume (made : Prop) (hw : w.pending = 0) (hidle : w.state.draining = false) (now : Int) (client : Client) :
    Lone made ((ingestion error).step (.call ⟨.resume, now, client⟩) w) := by
  show Lone made (after w.pending (w.state.drain client now))
  unfold drain
  rw [hw, if_neg (by rw [hidle]; decide)]
  exact lone_loop made rfl client now

theorem Work.draining (h : Work p q q') : q'.draining = q.draining := by
  induction h with
  | start => rfl
  | update _ _ _ ih => exact ih
  | write _ _ _ _ ih => exact ih

theorem fail_draining (message : Text) (now : Int) : (p.fail q message now).1.draining = q.draining := by
  unfold Process.fail
  split <;> rfl

/-- A job on its way leaves the loop waiting. -/
theorem resume_draining (now : Int) : (p.resume error q answer now).1.draining = q.draining ∧
    ∃ f, (p.resume error q answer now).2 = some f := by
  generalize hseg : p.resume error q answer now = seg
  have houtcome := @resume_outcome q p error answer now
  rw [hseg] at houtcome
  cases houtcome with
  | waits _ _ _ _ hdraining => exact ⟨hdraining, _, rfl⟩
  | goes _ _ h => exact ⟨h.draining, _, rfl⟩
  | begins => exact ⟨rfl, _, rfl⟩
  | ends => exact ⟨rfl, _, rfl⟩
  | @fails q' message now h =>
    refine ⟨(fail_draining message now).trans ?_, _, rfl⟩
    rcases h with rfl | ⟨-, h⟩
    · rfl
    · exact h.draining

theorem lone_step (h : Lone made w) (m : Move Call Frame Reply) (hmade : made → .failed ∉ w.pending) :
    Lone made ((ingestion error).step m w) := by
  rcases (ingestion error).step_cases m w with ⟨c, rfl, heq⟩ | ⟨f, r, fs, rfl, hw, heq⟩ | heq
  · rw [heq]
    show Lone made (after w.pending (IngestQueue.start c w.state))
    unfold IngestQueue.start
    split
    · unfold IngestQueue.enqueue
      split
      · exact lone_drain h rfl _ _
      · split
        · rw [after_none]; exact h
        · refine lone_drain h ?_ _ _
          rfl
    · unfold IngestQueue.retry
      split
      · rw [after_none]; exact h
      · refine lone_drain h ?_ _ _
        rfl
    · next id _ =>
      rw [after_none]
      unfold IngestQueue.cancel
      split
      · exact h
      · refine ⟨fun hidle => ⟨(h.idle hidle).1, fun hm j r hr => ?_⟩, h.busy⟩
        have hget : (w.state.updateStatus id .interrupted _ c.now).get j = some r := hr
        rw [get_updateStatus] at hget
        obtain ⟨o, ho, rfl⟩ := Option.map_eq_some_iff.1 hget
        split
        · exact fun h => by cases h
        · exact (h.idle hidle).2 hm j o ho
    · exact lone_drain h rfl _ _
  · rw [heq]
    have hbusy : w.state.draining = true := by
      by_contra hidle
      rw [Bool.not_eq_true] at hidle
      have hnone := (h.idle hidle).1
      rw [hw] at hnone
      exact Multiset.cons_ne_zero hnone
    obtain ⟨g, hg⟩ := h.busy hbusy
    rw [hw] at hg
    obtain ⟨rfl, rfl⟩ := (Multiset.singleton_eq_cons_iff fs).1 hg.symm
    show Lone made (after 0 (IngestQueue.resume error g r w.state))
    cases g with
    | process p =>
      obtain ⟨hdraining, f, hf⟩ := @resume_draining w.state p error r.result r.now
      show Lone made (after 0 (p.resume error w.state r.result r.now))
      rw [show p.resume error w.state r.result r.now = ((p.resume error w.state r.result r.now).1, some f) from
        Prod.ext rfl hf, after_some]
      refine ⟨fun hidle => ?_, fun _ => ⟨f, rfl⟩⟩
      rw [hdraining, hbusy] at hidle
      cases hidle
    | processed => exact lone_loop made hbusy r.client r.now
    | failed => exact ⟨fun _ => ⟨rfl, fun hm => absurd (hw ▸ Multiset.mem_cons_self _ _) (hmade hm)⟩, fun h => by cases h⟩
  · rw [heq]
    exact h

theorem Lone.card (h : Lone made w) : w.pending.card ≤ 1 := by
  cases hdraining : w.state.draining with
  | false => rw [(h.idle hdraining).1]; exact Nat.zero_le 1
  | true =>
    obtain ⟨f, hf⟩ := h.busy hdraining
    rw [hf, Multiset.card_singleton]

theorem Lone.nothing_queued (h : Lone made w) (hmade : made) (hw : w.pending = 0) (hr : w.state.get id = some r) :
    r.status ≠ .queued := by
  cases hdraining : w.state.draining with
  | false => exact (h.idle hdraining).2 hmade id r hr
  | true =>
    obtain ⟨f, hf⟩ := h.busy hdraining
    rw [hw] at hf
    exact absurd hf.symm (Multiset.singleton_ne_zero f)

/-! ## The job on its way -/

namespace Frame

def process? : Frame → Option Process
  | process p => some p
  | processed => none
  | failed => none

end Frame

/-- The job waits at another stage, or at the same. -/
theorem Core.stage {stage : Stage} (h : Core q (some p)) (hstage : stage.isEarly = true → p.stage.isEarly = true) :
    Core q (some { p with stage := stage }) where
  toBase := h.toBase
  rest id hid := h.rest id fun p' hp => by
    rw [← Option.some.inj hp]
    exact hid { p with stage := stage } rfl
  busy p' hp := by
    cases hp
    obtain ⟨hlookup, hrow, hearly⟩ := h.busy p rfl
    exact ⟨hlookup, hrow, fun he => hearly (hstage he)⟩

theorem isActive_of_isInFlight (h : s.isInFlight = true) : s.isActive = true ∧ s ≠ .done ∧ s ≠ .error ∧ s ≠ .interrupted := by
  cases s <;> simp_all [IngestStatus.isActive, IngestStatus.isInFlight]

theorem isActive_of_busy (hdone : s ≠ .done) (herror : s ≠ .error) (hcancelled : s ≠ .interrupted) : s.isActive = true := by
  cases s <;> simp_all [IngestStatus.isActive, IngestStatus.isInFlight]

theorem Core.work (h : Core q (some p)) (hw : Work p q q') (hr : q.get p.id = some r) (hactive : r.status.isActive = true) :
    Core q' (some p) ∧ ∃ r', q'.get p.id = some r' ∧ r'.status.isActive = true := by
  induction hw with
  | start => exact ⟨h, r, hr, hactive⟩
  | update patch now _ ih =>
    obtain ⟨hcore, o, ho, hacto⟩ := ih
    obtain ⟨o', ho', -, hs⟩ := (alike_update patch now p.id).some ho
    exact ⟨hcore.of_alike (alike_update patch now) rfl (fun _ _ => rfl) fun _ hc => hc, o', ho', by rwa [hs]⟩
  | write hs patch now _ ih =>
    obtain ⟨hcore, o, ho, hacto⟩ := ih
    obtain ⟨hacts, hdone, herror, hcancelled⟩ := isActive_of_isInFlight hs
    obtain ⟨o', ho', -, hso⟩ := @get_written _ p.id _ patch now o ho
    exact ⟨hcore.write ho (fun _ => Or.inl hacto) fun _ _ _ => ⟨hdone, herror, fun hi => absurd hi hcancelled⟩, o', ho',
      by rwa [hso]⟩

/-- The job is through: nothing is stored since its last terminal status. -/
theorem Core.finish (h : Base q) (hrest : ∀ id, p.id ≠ id → tally id q.log = 0) (hlast : tally p.id q.log = 0) :
    Core (p.finish q).1 ((p.finish q).2.bind Frame.process?) where
  toBase := ⟨h.ids, h.files, h.once⟩
  rest id _ := by
    by_cases hid : p.id = id
    · rw [← hid]; exact hlast
    · exact hrest id hid
  busy _ hp := by cases hp

theorem Core.rest_of (h : Core q (some p)) (id : Text) (hid : p.id ≠ id) : tally id q.log = 0 :=
  h.rest id fun p' hp => by
    cases hp
    exact hid

/-- The job ends with a terminal status. -/
theorem Core.ended (h : Core q (some p)) (hs : s = .done ∨ s = .error) :
    Core (p.finish (q.updateStatus p.id s patch now)).1 ((p.finish (q.updateStatus p.id s patch now)).2.bind Frame.process?) := by
  obtain ⟨-, ⟨r, hr, -⟩, -⟩ := h.busy p rfl
  have hquiet : s.isActive = false ∧ s.isTerminal = true := by rcases hs with rfl | rfl <;> exact ⟨rfl, rfl⟩
  refine Core.finish (h.toBase.write hr fun hactive => ?_) (fun id hid => ?_) ?_
  · rw [hquiet.1] at hactive
    cases hactive
  · show tally id (q.log ++ [.status p.id s]) = 0
    rw [tally_status, h.rest_of id hid, ite_self]
  · show tally p.id (q.log ++ [.status p.id s]) = 0
    rw [tally_status, if_pos ⟨rfl, hquiet.2⟩]

theorem Core.failed (h : Core q (some p)) (hlast : p.controller ∈ q.aborted → tally p.id q.log = 0) (message : Text) (now : Int) :
    Core (p.fail q message now).1 ((p.fail q message now).2.bind Frame.process?) := by
  unfold Process.fail
  split
  · next haborted => exact Core.finish h.toBase h.rest_of (hlast (List.contains_iff_mem.1 haborted))
  · exact h.ended (Or.inr rfl)

/-- The store begins, for the first time since the last terminal status. -/
theorem Core.begun {file : DriveFile} (h : Core q (some p)) (hearly : p.stage.isEarly = true) :
    Core { q with log := q.log ++ [Event.store p.id] } (some { p with stage := .store file }) where
  ids e he := by
    rcases List.mem_append.1 he with he | he
    · exact h.ids e he
    · obtain ⟨-, ⟨r, hr, -⟩, -⟩ := h.busy p rfl
      rw [List.mem_singleton.1 he]
      exact Option.isSome_iff_exists.2 ⟨r, hr⟩
  files := h.files
  once := by
    refine h.once.snoc fun j => ?_
    rw [tally_store]
    split
    · next hj => rw [← hj, (h.busy p rfl).early hearly]
    · exact h.once j q.log [] (List.append_nil _).symm
  rest j hj := by
    show tally j (q.log ++ [.store p.id]) = 0
    have hne : p.id ≠ j := hj { p with stage := .store file } rfl
    rw [tally_store, if_neg hne]
    exact h.rest_of j hne
  busy p' hp := by
    cases hp
    obtain ⟨hlookup, hrow, -⟩ := h.busy p rfl
    exact ⟨hlookup, hrow, fun he => by cases he⟩

/-- The row of a job is `interrupted`. -/
def Interrupted (q : IngestQueue) (id : Text) : Prop := (q.get id).any (·.status = .interrupted) = true

instance : Decidable (Interrupted q id) := inferInstanceAs (Decidable (_ = true))

theorem interrupted_iff : Interrupted q id ↔ ∃ r, q.get id = some r ∧ r.status = .interrupted := by
  unfold Interrupted
  rw [Option.any_eq_true]
  simp only [decide_eq_true_eq]

/-- A cancelled job that does not go on, and no failure behind a store that already began. -/
structure Minded (error : StoreResult → Option Text) (q : IngestQueue) (p : Process) (answer : Except Text Answer) : Prop where
  stops : Interrupted q p.id → p.goesOn error answer = false
  settles : p.controller ∈ q.aborted → p.failsToStore error answer = true → tally p.id q.log = 0

theorem active_of_goesOn (h : Core q (some p)) (hminded : Minded error q p answer) (hgoes : p.goesOn error answer = true) :
    ∃ r, q.get p.id = some r ∧ r.status.isActive = true := by
  obtain ⟨-, ⟨r, hr, hdone, herror, -⟩, -⟩ := h.busy p rfl
  refine ⟨r, hr, isActive_of_busy hdone herror fun hcancelled => ?_⟩
  rw [hminded.stops (interrupted_iff.2 ⟨r, hr, hcancelled⟩)] at hgoes
  cases hgoes

theorem not_goesOn_of_failsToStore (h : p.failsToStore error answer = true) : p.goesOn error answer = false := by
  unfold Process.failsToStore at h
  split at h
  · next hstage => simp only [Process.goesOn, hstage]
  · next hstage =>
    simp only [Process.goesOn, hstage, Option.isNone_eq_false_iff.2 h, Bool.false_and]
  · cases h

/-- **A segment of a job** keeps the jobs. -/
theorem core_resume (h : Core q (some p)) (now : Int) (hminded : Minded error q p answer) :
    Core (p.resume error q answer now).1 ((p.resume error q answer now).2.bind Frame.process?) := by
  generalize hseg : p.resume error q answer now = seg
  have houtcome := @resume_outcome q p error answer now
  rw [hseg] at houtcome
  cases houtcome with
  | waits halike hlog hrunning haborted _ hstage =>
    exact (h.of_alike halike hlog (fun _ _ => by rw [hrunning]) fun c hc => by rwa [haborted]).stage hstage
  | goes hgoes hearly hwork =>
    obtain ⟨r, hr, hactive⟩ := active_of_goesOn h hminded hgoes
    exact (h.work hwork hr hactive).1.stage fun _ => hearly
  | begins hgoes hearly => exact h.begun hearly
  | ends hgoes => exact h.ended (Or.inl rfl)
  | @fails q' message now hwork hstore =>
    have hearly : p.stage.isEarly = true → Core q' (some p) → tally p.id q'.log = 0 := fun he hcore => (hcore.busy p rfl).early he
    rcases hwork with rfl | ⟨hgoes, hwork⟩
    · refine h.failed (fun haborted => ?_) message now
      rcases hstore with he | hfails
      · exact hearly he h
      · exact hminded.settles haborted hfails
    · obtain ⟨r, hr, hactive⟩ := active_of_goesOn h hminded hgoes
      have hcore := (h.work hwork hr hactive).1
      refine hcore.failed (fun _ => ?_) message now
      rcases hstore with he | hfails
      · exact hearly he hcore
      · rw [not_goesOn_of_failsToStore hfails] at hgoes
        cases hgoes

end Zenod.Ingest
