/-
The working copy of a vault, and the pending changes read off `git status`
(`VaultRepo.pendingChanges`, `DriveVaultRepository.pendingChanges`).

A status line is a path with two codes, the index against HEAD and the working
tree against the index. What the client library files a pair of codes under is
a parameter (`StatusLibrary`), and so are the renames git detects in the index.

`mem_pendingChanges_iff`: a path on which HEAD and the working tree differ is
among the pending changes exactly when it is untracked or its line is filed
under a list that is read; the source of a staged rename has no line.
-/
import Zenod.Evidence.Immutability

namespace Zenod.Git

open Evidence (FileChange Tree)

/-! ## Status -/

/-- A column of `git status --porcelain`. -/
inductive Code | unmodified | modified | added | deleted | renamed
deriving DecidableEq, Repr

/-- HEAD, the index and the working tree, as far as git tracks it or would add it. -/
structure WorkingCopy where
  paths : List Text
  head : Tree
  index : Tree
  work : Tree
  /-- Renames git detects between HEAD and the index: source and target. -/
  renames : List (Text × Text)
  nodup : paths.Nodup
  supported : ∀ p, p ∉ paths → head p = none ∧ index p = none ∧ work p = none
  renames_ok : ∀ r ∈ renames, (head r.1).isSome ∧ index r.1 = none ∧ head r.2 = none ∧ (index r.2).isSome

variable (w : WorkingCopy)

def WorkingCopy.isSource (p : Text) : Bool := w.renames.any (·.1 = p)

def WorkingCopy.isTarget (p : Text) : Bool := w.renames.any (·.2 = p)

/-- The index against HEAD. -/
def WorkingCopy.x (p : Text) : Code :=
  match w.head p, w.index p with
  | none, none => .unmodified
  | none, some _ => if w.isTarget p then .renamed else .added
  | some _, none => .deleted
  | some before, some after => if before = after then .unmodified else .modified

/-- The working tree against the index. -/
def WorkingCopy.y (p : Text) : Code :=
  match w.index p, w.work p with
  | none, _ => .unmodified
  | some _, none => .deleted
  | some before, some after => if before = after then .unmodified else .modified

/-- A `??` line. -/
def WorkingCopy.isUntracked (p : Text) : Bool := (w.index p).isNone && (w.work p).isSome

/-- The line of a path git tracks: a rename has one, for its target. -/
def WorkingCopy.hasLine (p : Text) : Bool :=
  !w.isSource p && !(w.x p == .unmodified && w.y p == .unmodified)

/-! ## The client library -/

inductive Listing | modified | created | deleted
deriving DecidableEq, Repr

/-- The lists of a status result a tracked line is filed under, of those `pendingChanges` reads. -/
structure StatusLibrary where
  listings : Code → Code → List Listing
  unstagedEdit : listings .unmodified .modified = [.modified]
  unstagedDeletion : listings .unmodified .deleted = [.deleted]
  stagedEdit : listings .modified .unmodified = [.modified]
  stagedCreation : listings .added .unmodified = [.created]
  stagedDeletion : listings .deleted .unmodified = [.deleted]
  /-- A rename stands in a list of its own. -/
  stagedRename : listings .renamed .unmodified = []
  deleted_only : ∀ x y, .deleted ∈ listings x y → x = .deleted ∨ y = .deleted

variable (lib : StatusLibrary)

def WorkingCopy.listed (l : Listing) : List Text :=
  w.paths.filter fun p => w.hasLine p ∧ l ∈ lib.listings (w.x p) (w.y p)

def WorkingCopy.notAdded : List Text := w.paths.filter w.isUntracked

/-! ## Pending changes -/

/-- `record`: a deleted path has no text, any other the one in the working tree. -/
def WorkingCopy.record (deleted : Bool) (path : Text) : FileChange :=
  { path := path, before := w.head path, after := if deleted then none else w.work path }

/-- `[...status.modified, ...status.created, ...status.not_added]`. -/
def WorkingCopy.written : List Text := w.listed lib .modified ++ w.listed lib .created ++ w.notAdded

def pendingChanges : List FileChange :=
  (w.written lib).map (w.record false) ++ (w.listed lib .deleted).map (w.record true)

/-- The commit `git add -A` and `git commit` make. -/
def WorkingCopy.commit : Tree := w.work

/-! ## What is listed -/

/-- A path whose change is reported: untracked, or with a line in a list that is read. -/
def WorkingCopy.Reported (p : Text) : Prop :=
  w.isUntracked p = true ∨ (w.isSource p = false ∧ lib.listings (w.x p) (w.y p) ≠ [])

instance (p : Text) : Decidable (w.Reported lib p) := by unfold WorkingCopy.Reported; infer_instance

variable {w lib}

theorem WorkingCopy.mem_paths {p : Text} (h : w.head p ≠ w.work p) : p ∈ w.paths := by
  by_contra hp
  obtain ⟨hhead, -, hwork⟩ := w.supported p hp
  exact h (by rw [hhead, hwork])

/-- A difference that is not a rename's source and not untracked shows in a code. -/
theorem WorkingCopy.hasLine_of_differs {p : Text} (h : w.head p ≠ w.work p) (hs : w.isSource p = false)
    (hu : w.isUntracked p = false) : w.hasLine p = true := by
  have hcode : ¬(w.x p = .unmodified ∧ w.y p = .unmodified) := by
    intro hxy
    simp only [WorkingCopy.x, WorkingCopy.y] at hxy
    cases hi : w.index p with
    | none =>
      have hnone : w.work p = none := by
        simpa [WorkingCopy.isUntracked, hi] using hu
      cases hh : w.head p with
      | none => exact h (by rw [hh, hnone])
      | some before =>
        simp only [hi, hh] at hxy
        exact absurd hxy.1 (by decide)
    | some mid =>
      cases hh : w.head p with
      | none =>
        simp only [hi, hh] at hxy
        obtain ⟨hx, -⟩ := hxy
        split at hx <;> cases hx
      | some before =>
        cases hw : w.work p with
        | none =>
          simp only [hi, hh, hw] at hxy
          exact absurd hxy.2 (by decide)
        | some after =>
          simp only [hi, hh, hw, ite_eq_left_iff, reduceCtorEq, imp_false, not_not] at hxy
          exact h (by rw [hh, hw, hxy.1, hxy.2])
  simp only [WorkingCopy.hasLine, hs, Bool.not_false, Bool.true_and, Bool.not_eq_true', Bool.and_eq_false_iff,
    beq_eq_false_iff_ne]
  by_cases hx : w.x p = .unmodified
  · exact Or.inr fun hy => hcode ⟨hx, hy⟩
  · exact Or.inl hx

theorem WorkingCopy.mem_listed {l : Listing} {p : Text} :
    p ∈ w.listed lib l ↔ p ∈ w.paths ∧ w.hasLine p = true ∧ l ∈ lib.listings (w.x p) (w.y p) := by
  simp [WorkingCopy.listed]

theorem WorkingCopy.mem_notAdded {p : Text} : p ∈ w.notAdded ↔ p ∈ w.paths ∧ w.isUntracked p = true := by
  simp [WorkingCopy.notAdded]

/-- A path with a line filed under `deleted` is gone from the working tree, unless it is untracked. -/
theorem WorkingCopy.work_of_deleted {p : Text} (h : p ∈ w.listed lib .deleted) (hu : w.isUntracked p = false) :
    w.work p = none := by
  obtain ⟨-, -, hl⟩ := WorkingCopy.mem_listed.1 h
  rcases lib.deleted_only _ _ hl with hx | hy
  · simp only [WorkingCopy.x] at hx
    cases hi : w.index p with
    | none => simpa [WorkingCopy.isUntracked, hi] using hu
    | some mid =>
      cases hh : w.head p with
      | none =>
        simp only [hi, hh] at hx
        split at hx <;> cases hx
      | some before =>
        simp only [hi, hh] at hx
        split at hx <;> cases hx
  · simp only [WorkingCopy.y] at hy
    cases hi : w.index p with
    | none =>
      simp only [hi] at hy
      cases hy
    | some mid =>
      cases hw : w.work p with
      | none => rfl
      | some after =>
        simp only [hi, hw] at hy
        split at hy <;> cases hy

/-- **A difference is among the pending changes** exactly when it is reported. -/
theorem mem_pendingChanges_iff {p : Text} (h : w.head p ≠ w.work p) :
    ⟨p, w.head p, w.work p⟩ ∈ pendingChanges w lib ↔ w.Reported lib p := by
  have hp := w.mem_paths h
  constructor
  · intro hmem
    have hlisted : ∀ l, p ∈ w.listed lib l → w.Reported lib p := by
      intro l hl
      obtain ⟨-, hline, hl⟩ := WorkingCopy.mem_listed.1 hl
      refine Or.inr ⟨?_, List.ne_nil_of_mem hl⟩
      simp only [WorkingCopy.hasLine, Bool.and_eq_true, Bool.not_eq_true'] at hline
      exact hline.1
    simp only [pendingChanges, WorkingCopy.written, List.mem_append, List.mem_map] at hmem
    rcases hmem with ⟨q, hq, heq⟩ | ⟨q, hq, heq⟩
    · obtain rfl : q = p := congrArg FileChange.path heq
      rcases hq with (hq | hq) | hq
      · exact hlisted _ hq
      · exact hlisted _ hq
      · exact Or.inl (WorkingCopy.mem_notAdded.1 hq).2
    · obtain rfl : q = p := congrArg FileChange.path heq
      exact hlisted _ hq
  · intro hrep
    have hwritten : p ∈ w.written lib → ⟨p, w.head p, w.work p⟩ ∈ pendingChanges w lib := by
      intro hmem
      exact List.mem_append_left _ (List.mem_map.2 ⟨p, hmem, rfl⟩)
    by_cases hu : w.isUntracked p = true
    · exact hwritten (List.mem_append_right _ (WorkingCopy.mem_notAdded.2 ⟨hp, hu⟩))
    · rw [Bool.not_eq_true] at hu
      obtain ⟨hs, hne⟩ := hrep.resolve_left (by rw [hu]; exact Bool.false_ne_true)
      have hline := WorkingCopy.hasLine_of_differs h hs hu
      obtain ⟨l, hl⟩ := List.exists_mem_of_ne_nil _ hne
      have hmem : p ∈ w.listed lib l := WorkingCopy.mem_listed.2 ⟨hp, hline, hl⟩
      cases l with
      | modified => exact hwritten (List.mem_append_left _ (List.mem_append_left _ hmem))
      | created => exact hwritten (List.mem_append_left _ (List.mem_append_right _ hmem))
      | deleted =>
        refine List.mem_append_right _ (List.mem_map.2 ⟨p, hmem, ?_⟩)
        simp [WorkingCopy.record, WorkingCopy.work_of_deleted hmem hu]

/-! ## With nothing staged -/

theorem WorkingCopy.isSource_unstaged (hindex : ∀ q, w.index q = w.head q) (p : Text) : w.isSource p = false := by
  simp only [WorkingCopy.isSource, List.any_eq_false, decide_eq_true_eq]
  intro r hr heq
  obtain ⟨hhead, hnone, -, -⟩ := w.renames_ok r hr
  rw [hindex] at hnone
  rw [hnone] at hhead
  cases hhead

theorem WorkingCopy.x_unstaged (hindex : ∀ q, w.index q = w.head q) (p : Text) : w.x p = .unmodified := by
  simp only [WorkingCopy.x, hindex]
  cases w.head p <;> simp

/-- With nothing staged, every difference is reported. -/
theorem reported_of_unstaged {p : Text} (hindex : ∀ q, w.index q = w.head q) (h : w.head p ≠ w.work p) :
    w.Reported lib p := by
  have hs := w.isSource_unstaged hindex p
  rw [WorkingCopy.Reported, w.x_unstaged hindex, WorkingCopy.y, WorkingCopy.isUntracked, hindex]
  cases hhead : w.head p with
  | none =>
    cases hwork : w.work p with
    | none => exact absurd (by rw [hhead, hwork]) h
    | some after => exact Or.inl rfl
  | some before =>
    refine Or.inr ⟨hs, ?_⟩
    cases hwork : w.work p with
    | none =>
      rw [lib.unstagedDeletion]
      exact List.cons_ne_nil _ _
    | some after =>
      have hne : before ≠ after := fun he => h (by rw [hhead, hwork, he])
      dsimp only
      rw [if_neg hne, lib.unstagedEdit]
      exact List.cons_ne_nil _ _

end Zenod.Git
