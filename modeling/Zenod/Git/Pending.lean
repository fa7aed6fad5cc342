/-
Evidence immutability over the histories the repositories make.

The check before a commit sees the pending changes, so it protects what they
list. `evidence_history_iff`: accepted histories keep their evidence, and the
change set of a commit is complete exactly when every difference is reported,
which a rename staged in the index is not (`not_reported_source`,
`not_reported_target`).
-/
import Zenod.Drive.Path
import Zenod.Git.Status

namespace Zenod.Git

open Evidence (FileChange Tree checkEvidenceImmutability Accepted History Keeps)
open Drive (normalizePath NormalPath PathError)

variable {w : WorkingCopy} {lib : StatusLibrary}

/-- The change set of the next commit leaves out no path it changes. -/
def Complete (w : WorkingCopy) (changes : List FileChange) : Prop :=
  ∀ p, w.head p ≠ w.commit p → ⟨p, w.head p, w.commit p⟩ ∈ changes

/-- Every path on which HEAD and the next commit differ is reported. -/
def WorkingCopy.AllReported (w : WorkingCopy) (lib : StatusLibrary) : Prop :=
  ∀ p, w.head p ≠ w.commit p → w.Reported lib p

theorem complete_iff : Complete w (pendingChanges w lib) ↔ w.AllReported lib :=
  forall₂_congr fun _ h => mem_pendingChanges_iff h

/-! ## Staged renames -/

/-- The source of a staged rename is missing unless it is back in the working tree. -/
theorem not_reported_source {r : Text × Text} (hr : r ∈ w.renames) (hgone : w.work r.1 = none) :
    w.head r.1 ≠ w.commit r.1 ∧ ¬w.Reported lib r.1 := by
  obtain ⟨hhead, -, -, -⟩ := w.renames_ok r hr
  constructor
  · intro h
    rw [h, WorkingCopy.commit, hgone] at hhead
    cases hhead
  · intro h
    rcases h with hu | ⟨hs, -⟩
    · simp [WorkingCopy.isUntracked, hgone] at hu
    · have hsource : w.isSource r.1 = true := List.any_eq_true.2 ⟨r, hr, decide_eq_true rfl⟩
      rw [hsource] at hs
      cases hs

/-- Its target is missing unless it was edited after it was staged. -/
theorem not_reported_target {r : Text × Text} (hr : r ∈ w.renames) (hstaged : w.work r.2 = w.index r.2) :
    w.head r.2 ≠ w.commit r.2 ∧ ¬w.Reported lib r.2 := by
  obtain ⟨-, -, hhead, hindex⟩ := w.renames_ok r hr
  obtain ⟨text, htext⟩ := Option.isSome_iff_exists.1 hindex
  have hwork : w.work r.2 = some text := by rw [hstaged, htext]
  constructor
  · intro h
    rw [WorkingCopy.commit, hwork, hhead] at h
    cases h
  · intro h
    have htarget : w.isTarget r.2 = true := List.any_eq_true.2 ⟨r, hr, decide_eq_true rfl⟩
    have hx : w.x r.2 = .renamed := by simp [WorkingCopy.x, hhead, htext, htarget]
    have hy : w.y r.2 = .unmodified := by simp [WorkingCopy.y, htext, hwork]
    rcases h with hu | ⟨-, hne⟩
    · simp [WorkingCopy.isUntracked, htext] at hu
    · rw [hx, hy, lib.stagedRename] at hne
      exact hne rfl

/-! ## The Drive repository's pending changes -/

/-- `add` of the Drive repository: the path is normalized first. -/
def WorkingCopy.driveRecord (w : WorkingCopy) (deleted : Bool) (path : Text) : Except PathError FileChange := do
  let normalized ← normalizePath path
  let before ← (match normalizePath normalized with
    | .ok path => pure (w.head path)
    | .error _ => pure none)
  return { path := normalized, before := before, after := if deleted then none else w.work normalized }

def drivePendingChanges (w : WorkingCopy) (lib : StatusLibrary) : Except PathError (List FileChange) := do
  let written ← (w.written lib).mapM (w.driveRecord false)
  let deleted ← (w.listed lib .deleted).mapM (w.driveRecord true)
  return written ++ deleted

theorem driveRecord_normal {p : Text} (h : NormalPath p) (deleted : Bool) :
    w.driveRecord deleted p = .ok (w.record deleted p) := by
  simp only [WorkingCopy.driveRecord, show normalizePath p = .ok p from h, bind, Except.bind, pure, Except.pure]
  rfl

theorem mapM_driveRecord {deleted : Bool} {ps : List Text} (h : ∀ p ∈ ps, NormalPath p) :
    ps.mapM (w.driveRecord deleted) = .ok (ps.map (w.record deleted)) := by
  induction ps with
  | nil => rfl
  | cons p ps ih =>
    have htail := ih fun q hq => h q (List.mem_cons_of_mem _ hq)
    rw [List.mapM_cons, driveRecord_normal (h p List.mem_cons_self), htail]
    rfl

/-- On paths in normal form the two repositories report the same. -/
theorem drivePendingChanges_eq (h : ∀ p ∈ w.paths, NormalPath p) :
    drivePendingChanges w lib = .ok (pendingChanges w lib) := by
  have hsub : ∀ l, ∀ p ∈ w.listed lib l, NormalPath p := fun l p hp => h p (WorkingCopy.mem_listed.1 hp).1
  have hwritten : ∀ p ∈ w.written lib, NormalPath p := by
    intro p hp
    simp only [WorkingCopy.written, List.mem_append] at hp
    rcases hp with (hp | hp) | hp
    · exact hsub _ p hp
    · exact hsub _ p hp
    · exact h p (WorkingCopy.mem_notAdded.1 hp).1
  rw [drivePendingChanges, mapM_driveRecord hwritten, mapM_driveRecord (hsub .deleted)]
  rfl

/-! ## Histories made through the check -/

/-- Commits each made of a working copy on the one before it, whose pending changes passed the check. -/
inductive CheckedHistory (lib : StatusLibrary) : Tree → List Tree → Prop
  | nil (head : Tree) : CheckedHistory lib head []
  | cons {w : WorkingCopy} {rest : List Tree} (hok : checkEvidenceImmutability (pendingChanges w lib) = [])
      (hall : w.AllReported lib) (hrest : CheckedHistory lib w.commit rest) :
      CheckedHistory lib w.head (w.commit :: rest)

theorem CheckedHistory.history {head : Tree} {commits : List Tree} (h : CheckedHistory lib head commits) :
    History head commits := by
  induction h with
  | nil head => exact History.nil head
  | cons hok hall hrest ih => exact History.cons ⟨_, hok, complete_iff.2 hall⟩ ih

/-- **Main result.** Along a history whose change sets pass the check and are complete, terminated log lines
stay in place, no evidence file goes away and attachments keep their text. The pending changes of a working
copy, in either repository, are complete if and only if every path on which HEAD and the commit differ is
reported; so a history made through the check on such working copies keeps its evidence. -/
theorem evidence_history_iff (lib : StatusLibrary) :
    (∀ head commits, History head commits → (head :: commits).Pairwise Keeps) ∧
    (∀ w : WorkingCopy, Complete w (pendingChanges w lib) ↔ w.AllReported lib) ∧
    (∀ w : WorkingCopy, (∀ p ∈ w.paths, NormalPath p) →
      ((∃ changes, drivePendingChanges w lib = .ok changes ∧ Complete w changes) ↔ w.AllReported lib)) ∧
    ∀ head commits, CheckedHistory lib head commits → (head :: commits).Pairwise Keeps := by
  refine ⟨fun head commits h => h.pairwise, fun w => complete_iff, fun w hnormal => ?_,
    fun head commits h => h.history.pairwise⟩
  rw [drivePendingChanges_eq hnormal, ← complete_iff]
  constructor
  · intro h
    obtain ⟨changes, hok, hcomplete⟩ := h
    cases hok
    exact hcomplete
  · intro h
    exact ⟨_, rfl, h⟩

/-! ## A log file renamed in the index -/

/-- The lists as the client library fills them. -/
def simpleGit : StatusLibrary where
  listings x y := match x, y with
    | .unmodified, .modified => [.modified]
    | .unmodified, .deleted => [.deleted]
    | .added, .unmodified => [.created]
    | .added, .modified => [.created, .modified]
    | .deleted, .unmodified => [.deleted]
    | .modified, .unmodified => [.modified]
    | .modified, .modified => [.modified]
    | .renamed, .modified => [.modified]
    | _, _ => []
  unstagedEdit := rfl
  unstagedDeletion := rfl
  stagedEdit := rfl
  stagedCreation := rfl
  stagedDeletion := rfl
  stagedRename := rfl
  deleted_only := by
    intro x y h
    cases x <;> cases y <;> simp at h ⊢

def dayFile : Text := "Log/2026-11-01.md".toList

/-- A day's log with a line appended, nothing staged. -/
def appendedLog : WorkingCopy where
  paths := [dayFile]
  head p := if p = dayFile then some "# 2026-11-01\n".toList else none
  index p := if p = dayFile then some "# 2026-11-01\n".toList else none
  work p := if p = dayFile then some "# 2026-11-01\n\n".toList else none
  renames := []
  nodup := by decide
  supported p hp := by
    rw [List.mem_singleton] at hp
    simp only [if_neg hp, and_self]
  renames_ok := by intro r hr; cases hr

theorem appended_log_kept : [appendedLog.head, appendedLog.commit].Pairwise Keeps ∧
    ∃ changes, drivePendingChanges appendedLog simpleGit = .ok changes ∧ Complete appendedLog changes := by
  have h := evidence_history_iff simpleGit
  have hall : appendedLog.AllReported simpleGit := fun p hp => reported_of_unstaged (fun _ => rfl) hp
  refine ⟨h.2.2.2 _ _ (CheckedHistory.cons (by decide +kernel) hall (CheckedHistory.nil _)), ?_⟩
  exact (h.2.2.1 appendedLog (by decide +kernel)).2 hall

def renamedTo : Text := "Notes/2026-11-01.md".toList

/-- `git mv` of a day's log into the notes, not committed yet. -/
def renamedLog : WorkingCopy where
  paths := [dayFile, renamedTo]
  head p := if p = dayFile then some "# 2026-11-01\n".toList else none
  index p := if p = renamedTo then some "# 2026-11-01\n".toList else none
  work p := if p = renamedTo then some "# 2026-11-01\n".toList else none
  renames := [(dayFile, renamedTo)]
  nodup := by decide
  supported := by
    intro p hp
    simp only [List.mem_cons, List.not_mem_nil, or_false, not_or] at hp
    simp [hp.1, hp.2]
  renames_ok := by decide

/-- **A log file is deleted past the check**: the pending changes are empty while the commit drops it. -/
theorem renamed_log_unseen :
    pendingChanges renamedLog simpleGit = [] ∧ checkEvidenceImmutability (pendingChanges renamedLog simpleGit) = [] ∧
      renamedLog.head dayFile = some "# 2026-11-01\n".toList ∧ renamedLog.commit dayFile = none := by
  decide

end Zenod.Git
