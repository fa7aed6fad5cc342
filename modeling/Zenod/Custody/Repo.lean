/-
The clone of a git vault under one engine (`git/vaultRepo.ts`): the published
branch, the commit the clone stands on and its working tree.

Only the engine writes to the vault, so a pull changes nothing and a rebase has
nothing to take up; what each push, pull and commit meets is given. A file that
git ignores is not among the paths.
-/
import Mathlib.Algebra.Order.Group.Multiset
import Mathlib.Tactic.Abel
import Zenod.Evidence.DayLog
import Zenod.Evidence.References
import Zenod.Lib.Regex

namespace Zenod.Custody

open Text Evidence

/-! ## Trees -/

/-- The published tree, the tree of HEAD and the working tree, over the paths that any of them has. -/
structure Repo where
  paths : List Text
  published : Vault
  head : Vault
  work : Vault
  /-- HEAD has commits that are not on the published branch. -/
  ahead : Bool
  nodup : paths.Nodup
  supported : ∀ p ∉ paths, published p = none ∧ head p = none ∧ work p = none

/-- A path with those that are there. -/
def withPath (paths : List Text) (path : Text) : List Text := if path ∈ paths then paths else paths ++ [path]

theorem nodup_withPath {paths : List Text} (h : paths.Nodup) (path : Text) : (withPath paths path).Nodup := by
  unfold withPath
  split
  next => exact h
  next hnew => exact List.nodup_append.mpr ⟨h, List.nodup_singleton _, by simp; grind⟩

theorem mem_withPath {paths : List Text} {path p : Text} : p ∈ withPath paths path ↔ p ∈ paths ∨ p = path := by
  unfold withPath
  split
  next hmem => simp; grind
  next => simp

/-- The files of a vault that is cloned. -/
structure Files where
  paths : List Text
  text : Vault
  nodup : paths.Nodup
  supported : ∀ p ∉ paths, text p = none

/-- A fresh clone. -/
def clone (files : Files) : Repo where
  paths := files.paths
  published := files.text
  head := files.text
  work := files.text
  ahead := false
  nodup := files.nodup
  supported p hp := ⟨files.supported p hp, files.supported p hp, files.supported p hp⟩

namespace Repo

/-- The working tree with another text, or none, at one path. -/
def edit (s : Repo) (path : Text) (work : Vault) (h : ∀ p ≠ path, work p = s.work p) : Repo where
  paths := withPath s.paths path
  published := s.published
  head := s.head
  work := work
  ahead := s.ahead
  nodup := nodup_withPath s.nodup path
  supported p hp := by
    rw [mem_withPath, not_or] at hp
    rw [h p hp.2]
    exact s.supported p hp.1

def put (s : Repo) (path : Text) (text : Option Text) : Repo :=
  s.edit path (fun p => if p = path then text else s.work p) fun _ hp => if_neg hp

def append (s : Repo) (c : Capture) : EvidenceEntry × Repo :=
  ((appendEvidence c s.work).1,
    s.edit c.logPath (appendEvidence c s.work).2 fun _ hp => appendEvidence_other c s.work (Ne.symm hp))

theorem fileTargets_none (evidenceRef : Text) (targets : List Text) {vault : Vault} {p : Text} (h : vault p = none) :
    fileTargets evidenceRef targets vault p = none := by
  by_cases hpath : ∃ ref, splitEvidenceRef evidenceRef = .ok ref ∧ ref.logPath = p
  · obtain ⟨ref, href, rfl⟩ := hpath
    rw [fileTargets_noFile targets href h, h]
  · rw [fileTargets_other fun ref href heq => hpath ⟨ref, href, heq⟩, h]

/-- `appendFiledLines`. -/
def appendFiledLines (s : Repo) (evidenceRef : Text) (targets : List Text) : Repo :=
  { s with
    work := fileTargets evidenceRef targets s.work
    supported := fun p hp => ⟨(s.supported p hp).1, (s.supported p hp).2.1, fileTargets_none _ _ (s.supported p hp).2.2⟩ }

def changes (s : Repo) : List FileChange :=
  (s.paths.filter fun p => s.head p ≠ s.work p).map fun p => ⟨p, s.head p, s.work p⟩

/-- The change passes the immutability check. -/
def immutable (s : Repo) : Bool := checkEvidenceImmutability s.changes = []

def discardChanges (s : Repo) : Repo :=
  { s with work := s.head, supported := fun p hp => ⟨(s.supported p hp).1, (s.supported p hp).2.1, (s.supported p hp).2.1⟩ }

/-- `git add -A` and `git commit`; without a change there is nothing to commit. -/
def commit (s : Repo) : Repo :=
  if s.changes = [] then s
  else
    { s with
      head := s.work
      ahead := true
      supported := fun p hp => ⟨(s.supported p hp).1, (s.supported p hp).2.2, (s.supported p hp).2.2⟩ }

/-- A push reaches the remote. -/
def publish (s : Repo) : Repo :=
  { s with
    published := s.head
    ahead := false
    supported := fun p hp => ⟨(s.supported p hp).2.1, (s.supported p hp).2.1, (s.supported p hp).2.2⟩ }

/-! ## Publishing -/

end Repo

inductive PushOutcome
  | accepted
  /-- The remote has accepted it, and the answer is lost. -/
  | lost
  | refused
deriving DecidableEq

structure PushAttempt where
  outcome : PushOutcome := .accepted
  /-- The pull behind an attempt that failed. -/
  rebaseFails : Bool := false

/-- What a `commitAndPublish` meets. -/
structure Publication where
  commitFails : Bool := false
  /-- `ensureFreshRemote` throws. -/
  remoteFails : Bool := false
  attempt : Nat → PushAttempt := fun _ => {}

def pushRetries : Nat := 3

namespace Repo

/-- The attempts that are left; false where they throw. -/
def pushAttempts : List PushAttempt → Repo → Repo × Bool
  | [], s => (s, false)
  | attempt :: rest, s =>
    match attempt.outcome with
    | .accepted => (s.publish, true)
    | .lost => if attempt.rebaseFails then (s.publish, false) else pushAttempts rest s.publish
    | .refused => if attempt.rebaseFails then (s, false) else pushAttempts rest s

def pushWithRetry (s : Repo) (p : Publication) : Repo × Bool :=
  if p.remoteFails then (s, false) else s.pushAttempts ((List.range pushRetries).map p.attempt)

def commitAndPublish (s : Repo) (p : Publication) : Repo × Bool :=
  if p.commitFails then (s, false) else s.commit.pushWithRetry p

/-! ## Entries -/

/-- `/^Inbox\/filing-\d{4}-\d{2}-\d{2}-e-[a-zA-Z0-9-]+\.md$/`. -/
def filingReceiptPath : Regex :=
  Regex.sequence [.start, Regex.word "Inbox/filing-", Regex.date, Regex.word "-e-",
    Regex.some1 (.one fun c => c.isAlphanum || c == '-'), Regex.word ".md", .stop]

def isFilingReceiptPath (path : Text) : Bool := Regex.test Regex.plain filingReceiptPath path

/-- `assertNoInterruptedFiling` throws. -/
def interrupted (s : Repo) : Bool := s.changes.any (isFilingReceiptPath ·.path) || s.ahead

/-- The evidence entries of one of its trees. -/
def entries (s : Repo) (tree : Vault) : List MemoryEntry := s.paths.flatMap (entriesAt · tree)

def inPublished (s : Repo) : Multiset MemoryEntry := s.entries s.published

def inHead (s : Repo) : Multiset MemoryEntry := s.entries s.head

def inWork (s : Repo) : Multiset MemoryEntry := s.entries s.work

theorem entriesAt_of_none {path : Text} {vault : Vault} (h : vault path = none) : entriesAt path vault = [] := by
  unfold entriesAt parseEvidenceFile
  rw [h]
  cases logDate path <;> rfl

theorem entriesAt_of_logDate {path : Text} (h : logDate path = none) (vault : Vault) : entriesAt path vault = [] := by
  simp only [entriesAt, parseEvidenceFile, h]

theorem entriesAt_congr {path : Text} {vault vault' : Vault} (h : vault path = vault' path) :
    entriesAt path vault = entriesAt path vault' := by
  rw [entriesAt, entriesAt, h]

/-- A path that the tree has no file at adds no entries. -/
theorem flatMap_withPath {paths : List Text} {path : Text} {tree : Vault} (h : path ∉ paths → tree path = none) :
    (withPath paths path).flatMap (entriesAt · tree) = paths.flatMap (entriesAt · tree) := by
  unfold withPath
  split
  next => rfl
  next hnew => rw [List.flatMap_append, List.flatMap_singleton, entriesAt_of_none (h hnew), List.append_nil]

variable {s : Repo}

@[simp] theorem inPublished_edit (path : Text) (work : Vault) (h : ∀ p ≠ path, work p = s.work p) :
    (s.edit path work h).inPublished = s.inPublished :=
  Multiset.coe_eq_coe.mpr (.of_eq (flatMap_withPath fun hnew => (s.supported path hnew).1))

@[simp] theorem inHead_edit (path : Text) (work : Vault) (h : ∀ p ≠ path, work p = s.work p) :
    (s.edit path work h).inHead = s.inHead :=
  Multiset.coe_eq_coe.mpr (.of_eq (flatMap_withPath fun hnew => (s.supported path hnew).2.1))

/-- Away from the log an edit changes no entry. -/
theorem inWork_edit {path : Text} (work : Vault) (h : ∀ p ≠ path, work p = s.work p) (hpath : logDate path = none) :
    (s.edit path work h).inWork = s.inWork := by
  have hsame : ∀ p, entriesAt p work = entriesAt p s.work := by
    intro p
    by_cases hp : p = path
    · rw [hp, entriesAt_of_logDate hpath, entriesAt_of_logDate hpath]
    · exact entriesAt_congr (h p hp)
  refine Multiset.coe_eq_coe.mpr (.of_eq (Eq.trans ?_ (flatMap_withPath fun hnew => (s.supported path hnew).2.2)))
  exact congrArg (List.flatMap · _) (funext hsame)

/-- **A capture adds its entry**, and nothing else. -/
theorem inWork_append (c : Capture) : (s.append c).2.inWork = s.inWork + {c.memoryEntry} := by
  have hother : ∀ p ≠ c.logPath, entriesAt p (appendEvidence c s.work).2 = entriesAt p s.work :=
    fun p hp => entriesAt_congr (appendEvidence_other c s.work (Ne.symm hp))
  have hmem : c.logPath ∈ withPath s.paths c.logPath := mem_withPath.mpr (.inr rfl)
  obtain ⟨front, back, hpaths⟩ := List.append_of_mem hmem
  have hnodup := nodup_withPath s.nodup c.logPath
  rw [hpaths] at hnodup
  have hfront : c.logPath ∉ front := fun h => (List.nodup_append.mp hnodup).2.2 _ h _ List.mem_cons_self rfl
  have hback : c.logPath ∉ back := (List.nodup_cons.mp (List.nodup_append.mp hnodup).2.1).1
  have hkeep : ∀ paths : List Text, c.logPath ∉ paths →
      paths.flatMap (entriesAt · (appendEvidence c s.work).2) = paths.flatMap (entriesAt · s.work) := by
    intro paths hpaths
    exact List.flatMap_congr fun p hp => hother p fun heq => hpaths (heq ▸ hp)
  have hold : s.inWork = ↑((withPath s.paths c.logPath).flatMap (entriesAt · s.work)) :=
    Multiset.coe_eq_coe.mpr (.of_eq (flatMap_withPath fun hnew => (s.supported _ hnew).2.2).symm)
  rw [hold]
  show (↑((withPath s.paths c.logPath).flatMap (entriesAt · (appendEvidence c s.work).2)) : Multiset MemoryEntry) = _
  rw [hpaths, List.flatMap_append, List.flatMap_append, List.flatMap_cons, List.flatMap_cons, hkeep front hfront,
    hkeep back hback, parse_appendEvidence, ← Multiset.coe_add, ← Multiset.coe_add, ← Multiset.coe_add, ← Multiset.coe_add,
    ← Multiset.coe_add, Multiset.coe_singleton]
  abel

theorem mem_freshTargets {recorded known targets : List Text} {t : Text} (h : t ∈ freshTargets recorded known targets) :
    t ∈ targets := by
  induction targets generalizing known with
  | nil => cases h
  | cons target rest ih =>
    simp only [freshTargets] at h
    split at h
    next => exact List.mem_cons_of_mem _ (ih h)
    next =>
      rcases List.mem_cons.mp h with rfl | h
      · exact List.mem_cons_self
      · exact List.mem_cons_of_mem _ (ih h)

/-- Filed lines without line breaks change no entry. -/
theorem inWork_appendFiledLines {targets : List Text} (h : ∀ t ∈ targets, SingleLine t) (evidenceRef : Text) :
    (s.appendFiledLines evidenceRef targets).inWork = s.inWork := by
  refine Multiset.coe_eq_coe.mpr (.of_eq (congrArg (List.flatMap · s.paths) (funext fun p => ?_)))
  by_cases hpath : ∃ ref, splitEvidenceRef evidenceRef = .ok ref ∧ ref.logPath = p
  · obtain ⟨ref, href, rfl⟩ := hpath
    cases hraw : s.work ref.logPath with
    | none => exact entriesAt_congr (fileTargets_noFile targets href hraw ▸ rfl)
    | some raw =>
      exact entriesAt_fileTargets href hraw fun t ht => h t (List.mem_eraseDups.mp (mem_freshTargets ht))
  · exact entriesAt_congr (fileTargets_other fun ref href heq => hpath ⟨ref, href, heq⟩)

theorem changes_eq_nil (h : s.changes = []) : s.head = s.work := by
  funext p
  by_cases hp : p ∈ s.paths
  · have hfilter := List.filter_eq_nil_iff.mp (List.map_eq_nil_iff.mp h) p hp
    simpa using hfilter
  · rw [(s.supported p hp).2.1, (s.supported p hp).2.2]

end Repo

end Zenod.Custody
