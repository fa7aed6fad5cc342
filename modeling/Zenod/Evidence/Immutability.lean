/-
The diff check before every commit (`vault/immutability.ts`): log files only
grow, attachments are written once.

The check looks at one commit. `history_immutable` is what it means for a
history each of whose commits passed it with a change set that lists every
path the commit changes: a terminated line of a log file stays where it is for
good, no evidence file goes away, an attachment keeps its first text.
-/
import Zenod.Lib.Text

namespace Zenod.Evidence

open Text

/-- A pending change: `before` is none for a new file, `after` for a deletion. -/
structure FileChange where
  path : Text
  before : Option Text
  after : Option Text
deriving DecidableEq

structure LintError where
  path : Text
  rule : String
  message : String
deriving DecidableEq

def isEvidencePath (path : Text) : Bool :=
  startsWith path "Log/".toList || startsWith path "_attachments/".toList

/-- What the check has against one change. -/
def FileChange.errors (change : FileChange) : List LintError :=
  if isEvidencePath change.path then
    match change.before, change.after with
    | none, _ => []
    | some _, none => [⟨change.path, "evidence/immutable", "evidence files may never be deleted"⟩]
    | some before, some after =>
      if startsWith change.path "_attachments/".toList then
        if before = after then []
        else [⟨change.path, "evidence/immutable", "attachments are write-once and may never be modified"⟩]
      else
        -- A last line without its newline must be terminated before anything follows it.
        let pre := if endsWithNewline before then before else before ++ "\n".toList
        if after = before ∨ startsWith after pre then []
        else [⟨change.path, "evidence/immutable",
          "Log files are append-only — existing lines were modified or deleted"⟩]
  else []

def checkEvidenceImmutability (changes : List FileChange) : List LintError := changes.flatMap FileChange.errors

theorem check_eq_nil {changes : List FileChange} :
    checkEvidenceImmutability changes = [] ↔ ∀ change ∈ changes, change.errors = [] := by
  simp [checkEvidenceImmutability]

theorem isEvidencePath_log {path : Text} (h : startsWith path "Log/".toList = true) : isEvidencePath path = true := by
  rw [isEvidencePath, h, Bool.true_or]

theorem isEvidencePath_attachment {path : Text} (h : startsWith path "_attachments/".toList = true) :
    isEvidencePath path = true := by
  rw [isEvidencePath, h, Bool.or_true]

theorem not_attachment_of_log {path : Text} (hlog : startsWith path "Log/".toList = true) :
    startsWith path "_attachments/".toList = false := by
  cases path with
  | nil => rfl
  | cons c path =>
    have hc : ('L' == c) = true := by
      by_contra hc
      have : startsWith (c :: path) "Log/".toList = ('L' == c && "og/".toList.isPrefixOf path) := rfl
      rw [this, Bool.eq_false_iff.2 hc, Bool.false_and] at hlog
      exact Bool.false_ne_true hlog
    obtain rfl : 'L' = c := by simpa using hc
    rfl

/-- What the check lets a log file become. -/
theorem errors_log {path before after : Text} (hlog : startsWith path "Log/".toList)
    (h : (FileChange.mk path (some before) (some after)).errors = []) :
    after = before ∨ ∃ ls, (if endsWithNewline before then before else before ++ ['\n']) ++ ls = after := by
  have hpath := isEvidencePath_log hlog
  have hatt := not_attachment_of_log hlog
  simp only [FileChange.errors, hpath, if_true, hatt, Bool.false_eq_true, if_false] at h
  by_cases hok : after = before ∨
      startsWith after (if endsWithNewline before then before else before ++ "\n".toList) = true
  · rcases hok with hok | hok
    · exact Or.inl hok
    · exact Or.inr (List.isPrefixOf_iff_prefix.1 hok)
  · rw [if_neg hok] at h
    cases h

/-- New evidence is always fine. -/
theorem errors_new (path : Text) (after : Option Text) : (FileChange.mk path none after).errors = [] := by
  simp only [FileChange.errors]
  cases isEvidencePath path <;> rfl

theorem errors_same (path text : Text) : (FileChange.mk path (some text) (some text)).errors = [] := by
  simp only [FileChange.errors, true_or, if_true]
  cases isEvidencePath path <;> cases startsWith path "_attachments/".toList <;> rfl

/-- Growth behind the last line, terminated first, is what the check wants of a log file. -/
theorem errors_append {path : Text} (hlog : startsWith path "Log/".toList = true) (before more : Text) :
    (FileChange.mk path (some before)
      (some ((if endsWithNewline before then before else before ++ ['\n']) ++ more))).errors = [] := by
  have hok : startsWith ((if endsWithNewline before then before else before ++ ['\n']) ++ more)
      (if endsWithNewline before then before else before ++ "\n".toList) = true :=
    List.isPrefixOf_iff_prefix.2 ⟨more, rfl⟩
  simp only [FileChange.errors, isEvidencePath_log hlog, if_true, not_attachment_of_log hlog, Bool.false_eq_true,
    if_false, hok, or_true]

theorem errors_attachment {path before after : Text} (hatt : startsWith path "_attachments/".toList)
    (h : (FileChange.mk path (some before) (some after)).errors = []) : after = before := by
  have hpath := isEvidencePath_attachment hatt
  simp only [FileChange.errors, hpath, if_true, hatt] at h
  split at h
  next hok => exact hok.symm
  next => cases h

theorem errors_deletion {path before : Text} {after : Option Text} (hpath : isEvidencePath path)
    (h : (FileChange.mk path (some before) after).errors = []) : after.isSome := by
  cases after with
  | some after => rfl
  | none =>
    simp only [FileChange.errors, hpath, if_true] at h
    cases h

/-! ## Terminated lines -/

/-- `l` is line `i` of the text, and a newline ends it. -/
def TerminatedLine (t : Text) (i : Nat) (l : Text) : Prop := (lines t)[i]? = some l ∧ i + 1 < (lines t).length

theorem TerminatedLine.append {s t : Text} {i : Nat} {l : Text} (h : TerminatedLine s i l) :
    TerminatedLine (s ++ '\n' :: t) i l := by
  have hlt : i < (lines s).length := by
    have := h.2
    omega
  refine ⟨?_, ?_⟩
  · rw [lines_append, List.getElem?_append_left hlt]
    exact h.1
  · rw [lines_append, List.length_append]
    have := h.2
    omega

/-- **What the check allows a log file keeps its terminated lines in place.** -/
theorem TerminatedLine.kept {path before after : Text} {i : Nat} {l : Text}
    (hlog : startsWith path "Log/".toList)
    (h : (FileChange.mk path (some before) (some after)).errors = []) (hl : TerminatedLine before i l) :
    TerminatedLine after i l := by
  rcases errors_log hlog h with rfl | ⟨more, rfl⟩
  · exact hl
  by_cases hend : endsWithNewline before = true
  · -- The last line of `before` is the empty one behind its newline, and `l` stands before it.
    have hlast : before.getLast? = some '\n' := by simpa [endsWithNewline] using hend
    obtain ⟨s, rfl⟩ := List.getLast?_eq_some_iff.1 hlast
    have hs : (lines s)[i]? = some l ∧ i < (lines s).length := by
      obtain ⟨hget, hlt⟩ := hl
      rw [lines_append] at hget hlt
      have hlt' : i < (lines s).length := by
        rw [List.length_append] at hlt
        have : (lines []).length = 1 := rfl
        omega
      rw [List.getElem?_append_left hlt'] at hget
      exact ⟨hget, hlt'⟩
    rw [if_pos hend, List.append_assoc, List.singleton_append]
    refine ⟨?_, ?_⟩
    · rw [lines_append, List.getElem?_append_left hs.2]
      exact hs.1
    · rw [lines_append, List.length_append]
      have := List.length_pos_of_ne_nil (lines_ne_nil more)
      omega
  · rw [if_neg hend, List.append_assoc, List.singleton_append]
    exact hl.append

/-! ## Histories -/

/-- The texts a commit holds, by path. -/
abbrev Tree := Text → Option Text

/-- A commit on `head` whose change set passed the check and leaves out no path the commit changes. -/
def Accepted (head commit : Tree) : Prop :=
  ∃ changes : List FileChange, checkEvidenceImmutability changes = [] ∧
    ∀ path, head path ≠ commit path → ⟨path, head path, commit path⟩ ∈ changes

theorem Accepted.errors {head commit : Tree} (h : Accepted head commit) (path : Text)
    (hne : head path ≠ commit path) : (FileChange.mk path (head path) (commit path)).errors = [] := by
  obtain ⟨changes, hok, hall⟩ := h
  exact check_eq_nil.1 hok _ (hall path hne)

/-- What a later commit owes an earlier one. -/
structure Keeps (earlier later : Tree) : Prop where
  line : ∀ path t i l, startsWith path "Log/".toList → earlier path = some t → TerminatedLine t i l →
    ∃ t', later path = some t' ∧ TerminatedLine t' i l
  file : ∀ path, isEvidencePath path → (earlier path).isSome → (later path).isSome
  attachment : ∀ path t, startsWith path "_attachments/".toList → earlier path = some t → later path = some t

theorem Keeps.trans {a b c : Tree} (hab : Keeps a b) (hbc : Keeps b c) : Keeps a c where
  line path t i l hlog ht hl := by
    obtain ⟨t', ht', hl'⟩ := hab.line path t i l hlog ht hl
    exact hbc.line path t' i l hlog ht' hl'
  file path hpath h := hbc.file path hpath (hab.file path hpath h)
  attachment path t hatt h := hbc.attachment path t hatt (hab.attachment path t hatt h)

theorem Accepted.keeps {head commit : Tree} (h : Accepted head commit) : Keeps head commit := by
  have hstill : ∀ path t, isEvidencePath path → head path = some t → (commit path).isSome := by
    intro path t hpath ht
    by_cases heq : head path = commit path
    · rw [← heq, ht]
      rfl
    · have herr := h.errors path heq
      rw [ht] at herr
      exact errors_deletion hpath herr
  refine ⟨?_, ?_, ?_⟩
  · intro path t i l hlog ht hl
    by_cases heq : head path = commit path
    · exact ⟨t, heq ▸ ht, hl⟩
    · have hpath := isEvidencePath_log hlog
      obtain ⟨t', ht'⟩ := Option.isSome_iff_exists.1 (hstill path t hpath ht)
      have herr := h.errors path heq
      rw [ht, ht'] at herr
      exact ⟨t', ht', hl.kept hlog herr⟩
  · intro path hpath hsome
    obtain ⟨t, ht⟩ := Option.isSome_iff_exists.1 hsome
    exact hstill path t hpath ht
  · intro path t hatt ht
    by_cases heq : head path = commit path
    · exact heq ▸ ht
    · have hpath := isEvidencePath_attachment hatt
      obtain ⟨t', ht'⟩ := Option.isSome_iff_exists.1 (hstill path t hpath ht)
      have herr := h.errors path heq
      rw [ht, ht'] at herr
      rw [ht', errors_attachment hatt herr]

/-- Commits, each accepted on the one before it. -/
inductive History : Tree → List Tree → Prop
  | nil (head : Tree) : History head []
  | cons {head commit : Tree} {rest : List Tree} (h : Accepted head commit) (hrest : History commit rest) :
    History head (commit :: rest)

theorem History.keeps {head : Tree} {commits : List Tree} (h : History head commits) :
    ∀ commit ∈ commits, Keeps head commit := by
  induction h with
  | nil => intro commit hc; cases hc
  | cons hacc hrest ih =>
    intro commit hc
    rcases List.mem_cons.1 hc with rfl | hc
    · exact hacc.keeps
    · exact hacc.keeps.trans (ih commit hc)

/-- **Along a history of accepted commits** each keeps what any before it held. -/
theorem History.pairwise {head : Tree} {commits : List Tree} (h : History head commits) :
    (head :: commits).Pairwise Keeps := by
  induction h with
  | nil => exact List.pairwise_singleton _ _
  | cons hacc hrest ih =>
    exact List.pairwise_cons.2 ⟨(History.cons hacc hrest).keeps, ih⟩

end Zenod.Evidence
