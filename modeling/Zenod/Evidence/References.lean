/-
What an evidence reference resolves to.

`getEvidenceEntry` takes the first entry of the day file under the anchor, and
`appendEvidence` draws its anchor without looking at those the file has
(`getEvidenceEntry_appended`). So a reference resolves to its own capture, in
every later state, exactly when the day had no other content under the anchor
(`evidence_refs_iff`).
-/
import Zenod.Evidence.Codec

namespace Zenod.Evidence

open Text

/-! ## Sequences of captures -/

def appendAll (calls : List Capture) (vault : Vault) : Vault :=
  calls.foldl (fun vault c => (appendEvidence c vault).2) vault

/-- What the calls of a day append to its file, as entries. -/
def entriesOf (path : Text) (calls : List Capture) : List MemoryEntry :=
  (calls.filter (·.logPath = path)).map (·.memoryEntry)

theorem appendAll_append (calls more : List Capture) (vault : Vault) :
    appendAll (calls ++ more) vault = appendAll more (appendAll calls vault) := by
  simp only [appendAll, List.foldl_append]

theorem appendAll_cons (c : Capture) (calls : List Capture) (vault : Vault) :
    appendAll (c :: calls) vault = appendAll calls (appendEvidence c vault).2 := rfl

theorem entriesAt_appendEvidence (c : Capture) (vault : Vault) (path : Text) :
    entriesAt path (appendEvidence c vault).2 = entriesAt path vault ++ entriesOf path [c] := by
  by_cases h : c.logPath = path
  · subst h
    rw [parse_appendEvidence]
    simp [entriesOf]
  · have hsame : (appendEvidence c vault).2 path = vault path := write_other _ _ (Ne.symm h)
    rw [entriesAt, hsame]
    simp [entriesOf, h, entriesAt]

/-- The entries of a day file after some calls: those it had, then the calls' own. -/
theorem entriesAt_appendAll (calls : List Capture) (vault : Vault) (path : Text) :
    entriesAt path (appendAll calls vault) = entriesAt path vault ++ entriesOf path calls := by
  induction calls generalizing vault with
  | nil => simp [appendAll, entriesOf]
  | cons c calls ih =>
    rw [appendAll_cons, ih, entriesAt_appendEvidence, List.append_assoc]
    simp only [entriesOf, ← List.map_append, ← List.filter_append, List.singleton_append]

/-! ## Resolving a reference -/

theorem splitLast_evidenceRef (c : Capture) :
    splitLast '#' '^' (c.logPath ++ "#^".toList ++ c.anchor) = some (c.logPath, c.anchor) := by
  have hmark : '#' ∉ '^' :: c.anchor := by
    rw [List.mem_cons, not_or]
    exact ⟨by decide, not_mem_anchorOf (by decide)⟩
  have h := splitLast_append c.logPath hmark
  rw [List.append_assoc]
  exact h

theorem written_of_entries {path : Text} {vault : Vault} (h : entriesAt path vault ≠ []) :
    ∃ text, vault path = some text := by
  cases hv : vault path with
  | some text => exact ⟨text, rfl⟩
  | none =>
    exfalso
    apply h
    rw [entriesAt, hv, Option.getD_none, parseEvidenceFile]
    cases logDate path <;> rfl

/-- A reference finds the first entry of its day file under its anchor. -/
theorem getEvidenceEntry_eq {c : Capture} {vault : Vault} {entry : MemoryEntry}
    (h : (entriesAt c.logPath vault).find? (·.anchor = c.anchor) = some entry) :
    getEvidenceEntry vault (c.logPath ++ "#^".toList ++ c.anchor) = .ok entry := by
  have hne : entriesAt c.logPath vault ≠ [] := by
    intro hnil
    rw [hnil] at h
    cases h
  obtain ⟨text, htext⟩ := written_of_entries hne
  have hok : (logDate c.logPath).isSome = true ∧ validAnchor c.anchor = true := by
    refine ⟨?_, validAnchor_anchorOf c.bytes⟩
    rw [Capture.logPath, logDate_logPathOf]
    rfl
  rw [entriesAt, htext, Option.getD_some] at h
  simp only [getEvidenceEntry, evidenceEntryFromText, splitLast_evidenceRef, if_pos hok, htext, h]
  rfl

/-- **What the reference of a call resolves to** after any later calls: the first entry the file had under
the drawn anchor, and only without one the call's own. -/
theorem getEvidenceEntry_appended (c : Capture) (vault : Vault) (later : List Capture) :
    getEvidenceEntry (appendAll later (appendEvidence c vault).2) (appendEvidence c vault).1.evidenceRef =
      .ok (((entriesAt c.logPath vault).find? (·.anchor = c.anchor)).getD c.memoryEntry) := by
  apply getEvidenceEntry_eq
  rw [entriesAt_appendAll, parse_appendEvidence, List.append_assoc, List.find?_append]
  cases (entriesAt c.logPath vault).find? (·.anchor = c.anchor) with
  | some entry => rfl
  | none => simp [Capture.memoryEntry]

/-! ## Every sequence of calls -/

/-- The first capture of the day under the anchor, in the file or among the calls before this one, has this
one's content. -/
def Unambiguous (vault : Vault) (before : List Capture) (c : Capture) : Prop :=
  ∀ entry, (entriesAt c.logPath vault ++ entriesOf c.logPath before).find? (·.anchor = c.anchor) = some entry →
    entry.content = trimEnd c.content

/-- **Main result.** In a sequence of calls on a vault, every reference a call returns resolves to the content
the call appended, in every later state, if and only if no call draws an anchor under which its day file has
another content first. -/
theorem evidence_refs_iff (vault : Vault) (calls : List Capture) :
    (∀ before c later more, calls = before ++ c :: later ++ more →
      ∃ entry, getEvidenceEntry (appendAll (before ++ c :: later) vault)
          (appendEvidence c (appendAll before vault)).1.evidenceRef = .ok entry ∧
        entry.content = trimEnd c.content) ↔
    ∀ before c later, calls = before ++ c :: later → Unambiguous vault before c := by
  have hresolves : ∀ before c later,
      getEvidenceEntry (appendAll (before ++ c :: later) vault)
          (appendEvidence c (appendAll before vault)).1.evidenceRef =
        .ok (((entriesAt c.logPath vault ++ entriesOf c.logPath before).find? (·.anchor = c.anchor)).getD
          c.memoryEntry) := by
    intro before c later
    rw [appendAll_append, appendAll_cons, getEvidenceEntry_appended, entriesAt_appendAll]
  constructor
  · intro h before c later hcalls entry hfirst
    obtain ⟨found, hok, hcontent⟩ := h before c later [] (by rw [hcalls, List.append_nil])
    rw [hresolves, hfirst] at hok
    cases hok
    exact hcontent
  · intro h before c later more hcalls
    refine ⟨_, hresolves before c later, ?_⟩
    have hc := h before c (later ++ more) (by rw [hcalls, List.append_assoc, List.cons_append])
    cases hfirst : (entriesAt c.logPath vault ++ entriesOf c.logPath before).find? (·.anchor = c.anchor) with
    | none => rfl
    | some entry => exact hc entry hfirst

/-- Two captures of one minute. -/
def collidingCapture (content : Text) : Capture where
  content := content
  source := .mcp
  verbatim := false
  now := Moment.sample
  bytes := (0xaa, 0xbb, 0xcc)

/-- **Two captures that draw the same anchor**: the reference of the second shows the first. -/
theorem colliding_refs :
    (getEvidenceEntry (appendAll [collidingCapture "first".toList, collidingCapture "second".toList] fun _ => none)
      (appendEvidence (collidingCapture "second".toList)
        (appendAll [collidingCapture "first".toList] fun _ => none)).1.evidenceRef).toOption.map (·.content) =
      some "first".toList ∧
    "first".toList ≠ trimEnd (collidingCapture "second".toList).content := by
  decide +kernel

end Zenod.Evidence
