/-
What reconciliation leaves alone. The targets of a prepared reconciliation are
whole lines of the page's body (`targets_lines`), an edit puts citations
behind one, and everything else is put behind the body; the frontmatter is
printed anew when facts are proposed.

`applyReconciliation_frame`: the new body is the old one with text inserted at
the ends of its lines, and the frontmatter's keys other than `memoryFacts`
keep their values.
-/
import Zenod.Engine.Buffer

namespace Zenod.Engine

open Text Vault
open Evidence (MemoryEntry)

variable {lib : Library}

/-! ## Targets are lines of the body -/

/-- Every section of the page's branch is a slice of its body, at the offset it gives. -/
def PrepareInput.SectionsExact (lib : Library) (input : PrepareInput) : Prop :=
  ∀ branch ∈ input.branch, ∀ s ∈ branch.sections,
    ∃ a b, input.body lib = a ++ s.text ++ b ∧ utf16Length a = s.excerptStart

theorem nonEmptyLinesFrom_mem {ls : List Text} {pre : Text} {found : Nat × Text} (hls : ∀ l ∈ ls, SingleLine l)
    (h : found ∈ nonEmptyLinesFrom (utf16Length pre) ls) :
    found.2 ≠ [] ∧ SingleLine found.2 ∧ ∃ p q, pre ++ join ls = p ++ found.2 ++ q ∧ utf16Length p = found.1 := by
  induction ls generalizing pre with
  | nil => cases h
  | cons l rest ih =>
    have hfirst : ∃ q, join (l :: rest) = l ++ q := by
      cases rest with
      | nil => exact ⟨[], by simp [join]⟩
      | cons m rest => exact ⟨_, join_cons_cons l m rest⟩
    rcases List.mem_append.1 h with h | h
    · split at h
      next => cases h
      next hne =>
        obtain rfl : found = (utf16Length pre, l) := List.mem_singleton.1 h
        obtain ⟨q, hq⟩ := hfirst
        refine ⟨hne, hls l List.mem_cons_self, pre, q, ?_, rfl⟩
        rw [hq, List.append_assoc]
    · cases rest with
      | nil => cases h
      | cons m rest =>
        have hoffset : utf16Length (pre ++ l ++ ['\n']) = utf16Length pre + utf16Length l + 1 := by
          rw [utf16Length_append, utf16Length_append]
          rfl
        rw [← hoffset] at h
        obtain ⟨hne, hsingle, p, q, heq, hp⟩ := ih (fun k hk => hls k (List.mem_cons_of_mem _ hk)) h
        refine ⟨hne, hsingle, p, q, ?_, hp⟩
        rw [← heq, join_cons_cons]
        simp only [List.append_assoc, List.singleton_append]

theorem nonEmptyLines_mem {text : Text} {found : Nat × Text} (h : found ∈ nonEmptyLines text) :
    found.2 ≠ [] ∧ SingleLine found.2 ∧ ∃ p q, text = p ++ found.2 ++ q ∧ utf16Length p = found.1 := by
  have h : found ∈ nonEmptyLinesFrom (utf16Length []) (lines text) := h
  obtain ⟨hne, hsingle, p, q, heq, hp⟩ := nonEmptyLinesFrom_mem (fun l hl => singleLine_of_mem_lines hl) h
  rw [List.nil_append, join_lines] at heq
  exact ⟨hne, hsingle, p, q, heq, hp⟩

theorem atLineStart_of_hasUnit {p q : Text} (h : 0 < utf16Length p → hasUnit (p ++ q) (utf16Length p - 1) '\n' = true) :
    AtLineStart p := by
  rcases Nat.eq_zero_or_pos (utf16Length p) with hzero | hpos
  · cases p with
    | nil => exact fun c hc => by cases hc
    | cons c p =>
      rw [utf16Length_cons] at hzero
      have := units_pos c
      omega
  · obtain ⟨r, hr, hhead⟩ := (Option.any_eq_true _ _).1 (h hpos)
    rw [decide_eq_true_eq] at hhead
    obtain ⟨t, ht⟩ : ∃ t, r.2 = '\n' :: t := by
      cases hr2 : r.2 with
      | nil =>
        rw [hr2] at hhead
        cases hhead
      | cons c t =>
        rw [hr2] at hhead
        exact ⟨t, by rw [Option.some.inj hhead]⟩
    have hlength := length_of_splitUnits hr (by rw [ht]; exact List.cons_ne_nil _ _)
    have happend := splitUnits_append hr
    rw [ht, ← List.singleton_append, ← List.append_assoc] at happend
    have hp : r.1 ++ ['\n'] = p := by
      refine (append_inj_units happend ?_).1
      have hone : utf16Length ['\n'] = 1 := rfl
      rw [utf16Length_append, hlength, hone]
      omega
    intro c hc
    rw [← hp, List.getLast?_concat] at hc
    exact (Option.some.inj hc).symm

theorem atLineEnd_of_hasUnit {p q : Text}
    (h : utf16Length p < utf16Length (p ++ q) → hasUnit (p ++ q) (utf16Length p) '\n' = true) : AtLineEnd q := by
  cases q with
  | nil => exact fun c hc => by cases hc
  | cons d q =>
    have hlt : utf16Length p < utf16Length (p ++ d :: q) := by
      rw [utf16Length_append, utf16Length_cons]
      have := units_pos d
      omega
    have hunit := h hlt
    rw [hasUnit, splitUnits_length, Option.any_some, decide_eq_true_eq] at hunit
    intro c hc
    exact Option.some.inj (hc.symm.trans hunit)

/-- A target is a whole line of the body. -/
structure Target.Whole (body : Text) (t : Target) : Prop where
  line : LineAt body t.line t.start
  stop : t.stop = t.start + utf16Length t.line
  ne_nil : t.line ≠ []

theorem addStatement_targets {input : PrepareInput} {s : ContextSection} {acc : Statements} {found : Nat × Text}
    (hsection : ∃ a b, input.body lib = a ++ s.text ++ b ∧ utf16Length a = s.excerptStart)
    (hfound : found ∈ nonEmptyLines s.text) (hacc : ∀ e ∈ acc.targets, e.2.Whole (input.body lib)) :
    ∀ e ∈ (addStatement lib input s acc found).targets, e.2.Whole (input.body lib) := by
  obtain ⟨hne, hsingle, p, q, htext, hp⟩ := nonEmptyLines_mem hfound
  obtain ⟨a, b, hbody, ha⟩ := hsection
  have hstart : utf16Length (a ++ p) = s.excerptStart + found.1 := by rw [utf16Length_append, ha, hp]
  have hstop : utf16Length (a ++ p ++ found.2) = s.excerptStart + found.1 + utf16Length found.2 := by
    rw [utf16Length_append, hstart]
  have hsplit : input.body lib = a ++ p ++ found.2 ++ (q ++ b) := by
    rw [hbody, htext]
    simp only [List.append_assoc]
  unfold addStatement
  simp only []
  split
  next => exact hacc
  next hwhole =>
    split
    next => exact hacc
    next =>
      rw [not_or, not_and, not_and, Bool.not_eq_false, Bool.not_eq_false, ← hstop, ← hstart] at hwhole
      intro e he
      rcases MapOf.mem_set he with rfl | he
      · refine ⟨⟨a ++ p, q ++ b, hsplit, hstart, ?_, ?_, hsingle⟩, rfl, hne⟩
        · refine atLineStart_of_hasUnit (q := found.2 ++ (q ++ b)) fun hpos => ?_
          rw [← List.append_assoc, ← hsplit]
          exact hwhole.1 hpos
        · refine atLineEnd_of_hasUnit (p := a ++ p ++ found.2) fun hlt => ?_
          rw [← hsplit] at hlt ⊢
          exact hwhole.2 hlt
      · exact hacc e he

/-- The statements of a page are collected line by line. -/
theorem collectStatements_induct {input : PrepareInput} {P : Statements → Prop} (hempty : P {})
    (hstep : ∀ branch ∈ input.branch, ∀ s ∈ branch.sections, ∀ found ∈ nonEmptyLines s.text, ∀ acc, P acc →
      P (addStatement lib input s acc found)) : P (collectStatements lib input) := by
  unfold collectStatements
  refine List.foldlRecOn _ _ hempty fun acc hacc s hs => List.foldlRecOn _ _ hacc fun acc hacc found hfound => ?_
  cases hb : input.branch with
  | none =>
    rw [hb] at hs
    cases hs
  | some branch =>
    rw [hb] at hs
    exact hstep branch hb s hs found hfound acc hacc

/-- **Every target is a whole line of the body.** -/
theorem targets_lines {input : PrepareInput} {prepared : Prepared} (hsections : input.SectionsExact lib)
    (h : prepareReconciliation lib input = some prepared) : ∀ e ∈ prepared.targets, e.2.Whole (input.body lib) := by
  have hcollected : ∀ e ∈ (collectStatements lib input).targets, e.2.Whole (input.body lib) := by
    refine collectStatements_induct (P := fun acc => ∀ e ∈ acc.targets, e.2.Whole (input.body lib))
      (fun e he => by cases he) fun branch hb s hs found hfound acc hacc => ?_
    exact addStatement_targets (hsections branch hb s hs) hfound hacc
  unfold prepareReconciliation at h
  simp only [] at h
  split at h
  next => cases h
  next =>
    cases h
    exact fun e he => hcollected e (List.mem_filter.1 he).1

/-- A statement's fact key is the key of a fact the page has. -/
theorem statements_factKey {input : PrepareInput} {prepared : Prepared}
    (h : prepareReconciliation lib input = some prepared) :
    ∀ s ∈ prepared.request.statements, ∀ key ∈ s.factKey, ∃ fact ∈ input.memoryFacts lib, fact.key = key := by
  let P (s : ReconciliationStatement) : Prop := ∀ key ∈ s.factKey, ∃ fact ∈ input.memoryFacts lib, fact.key = key
  have hcollected : ∀ s ∈ (collectStatements lib input).statements, P s := by
    refine collectStatements_induct (P := fun acc => ∀ s ∈ acc.statements, P s) (fun s hs => by cases hs)
      fun branch hb section_ hs found hfound acc hacc => ?_
    unfold addStatement
    simp only []
    split
    next => exact hacc
    next =>
      split
      next => exact hacc
      next =>
        intro s hs
        rcases List.mem_append.1 hs with hs | hs
        · exact hacc s hs
        · intro key hkey
          rw [List.mem_singleton.1 hs] at hkey
          obtain ⟨fact, hfact, hfactkey⟩ := Option.map_eq_some_iff.1 hkey
          exact ⟨fact, List.mem_of_find?_eq_some hfact, hfactkey⟩
  have hbound : ∀ (branch : Option BranchDescription) (statements : List ReconciliationStatement),
      boundStatements branch statements ⊆ statements := by
    intro branch statements
    unfold boundStatements
    refine List.foldlRecOn _ _ (motive := (· ⊆ statements)) (List.nil_subset _) fun kept hkept s hs => ?_
    simp only []
    split
    next => exact List.append_subset.2 ⟨hkept, List.cons_subset.2 ⟨hs, List.nil_subset _⟩⟩
    next => exact hkept
  unfold prepareReconciliation at h
  simp only [] at h
  split at h
  next => cases h
  next =>
    cases h
    exact fun s hs => hcollected s (hbound _ _ hs)

theorem prepared_input {input : PrepareInput} {prepared : Prepared} (h : prepareReconciliation lib input = some prepared) :
    prepared.input = input := by
  unfold prepareReconciliation at h
  simp only [] at h
  split at h
  next => cases h
  next =>
    cases h
    rfl

/-! ## The body grows -/

variable {prepared : Prepared} {items : List (ReconciliationOperation × Option String)} {p : Progress}

/-- The page's text behind its frontmatter, once it is rendered. -/
def pageText (lib : Library) (prepared : Prepared) (p : Progress) : Text :=
  newBody lib prepared p ++ linksTail prepared (newBody lib prepared p)

/-- What is put into a body: citation marks, the lines of operations, and the links. -/
inductive Piece (lib : Library) (prepared : Prepared) (items : List (ReconciliationOperation × Option String)) : Text → Prop
  | mark (value : Value) : Piece lib prepared items (markOf prepared (digest lib value))
  | line {proposal : Option FactProposal} {support : List Text} {addition : Text}
      (h : Written lib prepared items proposal support addition) : Piece lib prepared items addition
  | links (body : Text) : Piece lib prepared items (linksTail prepared body)

theorem Buffered.edits_grow (h : Buffered lib prepared items p)
    (htargets : ∀ e ∈ prepared.targets, e.2.Whole (prepared.input.body lib)) :
    ∀ e ∈ p.edits, e.2.Grows (Piece lib prepared items) (prepared.input.body lib) := by
  intro e he
  obtain ⟨target, marks, hget, hstart, hstop, htext, hmarks⟩ := h.edits e he
  obtain ⟨hline, hstop', -⟩ := htargets _ (MapOf.mem_of_get hget)
  refine ⟨target.line, marks, ?_, ?_, htext, fun mark hm => ?_⟩
  · rw [hstart]
    exact hline
  · rw [hstop, hstart, hstop']
  · obtain ⟨value, rfl⟩ := hmarks mark hm
    exact Piece.mark value

theorem sorted_edits (edits : List Edit) :
    (edits.insertionSort fun a b => b.start ≤ a.start).Pairwise fun a b => b.start ≤ a.start := by
  have htotal : Std.Total fun a b : Edit => b.start ≤ a.start := ⟨fun a b => Nat.le_total b.start a.start⟩
  have htrans : IsTrans Edit fun a b => b.start ≤ a.start := ⟨fun _ _ _ hab hbc => Nat.le_trans hbc hab⟩
  exact List.pairwise_insertionSort _ edits

/-- **The page's text is its body with pieces inserted at the ends of lines.** -/
theorem Buffered.grown (h : Buffered lib prepared items p)
    (htargets : ∀ e ∈ prepared.targets, e.2.Whole (prepared.input.body lib)) :
    Grown (Piece lib prepared items) (prepared.input.body lib) (pageText lib prepared p) := by
  have hedits : Grown (Piece lib prepared items) (prepared.input.body lib) (applyEdits p.edits (prepared.input.body lib)) := by
    refine grown_of_edits (sorted_edits _) fun e he => ?_
    obtain ⟨e', he', rfl⟩ := List.mem_map.1 ((List.mem_insertionSort _).1 he)
    exact h.edits_grow htargets e' he'
  refine (hedits.append_all fun a ha => ?_).append_piece (Piece.links _)
  obtain ⟨proposal, support, hwritten⟩ := h.additions a ha
  exact Piece.line hwritten

/-- Behind an empty body the text starts with a newline. -/
theorem Buffered.text_of_nil (h : Buffered lib prepared items p)
    (htargets : ∀ e ∈ prepared.targets, e.2.Whole (prepared.input.body lib)) (hnil : prepared.input.body lib = [])
    (hsome : p.edits ≠ [] ∨ p.additions ≠ []) : ∃ rest, newBody lib prepared p = '\n' :: rest := by
  have hedits : p.edits = [] := by
    cases hp : p.edits with
    | nil => rfl
    | cons e edits =>
      obtain ⟨target, -, hget, -⟩ := h.edits e (by rw [hp]; exact List.mem_cons_self)
      obtain ⟨⟨q, r, hbody, -⟩, -, hne⟩ := htargets _ (MapOf.mem_of_get hget)
      rw [hnil] at hbody
      exact absurd (List.append_eq_nil_iff.1 (List.append_eq_nil_iff.1 hbody.symm).1).2 hne
  obtain ⟨a, additions, hadditions⟩ := List.exists_cons_of_ne_nil (hsome.resolve_left fun hne => hne hedits)
  obtain ⟨proposal, support, item, -, operation, sources, ideaIds, value, -, -, -, -, -, hwrite⟩ :=
    h.additions a (by rw [hadditions]; exact List.mem_cons_self)
  obtain ⟨_, _, heq⟩ := writeChange_ok hwrite
  obtain ⟨-, -, rfl⟩ := Change.write.inj heq
  unfold newBody
  rw [hedits, hadditions, hnil]
  exact ⟨_, rfl⟩

/-! ## The rendered page -/

variable {tail : Value → Value}

theorem metadata_keys (prepared : Prepared) : (prepared.metadata.map (·.1)).Nodup := by
  show (["title".toList, "type".toList, "tags".toList, "created".toList, "updated".toList, "summary".toList] : List Text).Nodup
  decide

theorem erase_keys {f : Frontmatter} (h : (f.map (·.1)).Nodup) (key : Text) : ((f.erase key).map (·.1)).Nodup :=
  h.sublist (List.filter_sublist.map _)

theorem not_mem_erase (f : Frontmatter) (key : Text) : (f.erase key).any (·.1 = key) = false := by
  rw [List.any_eq_false]
  intro e he
  exact (Bool.not_eq_true _).mpr (by simpa using (List.mem_filter.1 he).2)

theorem set_erase (f : Frontmatter) (key : Text) (value : Value) : (f.erase key).set key value = f.erase key ++ [(key, value)] := by
  rw [Frontmatter.set, if_neg (by rw [not_mem_erase]; exact Bool.false_ne_true)]

theorem set_keys {f : Frontmatter} (h : (f.map (·.1)).Nodup) (key : Text) (value : Value) :
    ((f.set key value).map (·.1)).Nodup := by
  unfold Frontmatter.set
  split
  next =>
    have hkeys : (f.map fun e => if e.1 = key then (key, value) else e).map (·.1) = f.map (·.1) := by
      rw [List.map_map]
      refine List.map_congr_left fun e _ => ?_
      show (if e.1 = key then (key, value) else e).1 = e.1
      split
      next heq => exact heq.symm
      next => rfl
    rw [hkeys]
    exact h
  next hnot =>
    rw [List.map_append, List.nodup_append]
    refine ⟨h, List.nodup_singleton _, fun a ha b hb hab => hnot ?_⟩
    obtain ⟨e, he, rfl⟩ := List.mem_map.1 ha
    rw [List.any_eq_true]
    refine ⟨e, he, ?_⟩
    rw [decide_eq_true_eq, hab, List.mem_singleton.1 hb]

theorem withFacts_keys {f : Frontmatter} (h : (f.map (·.1)).Nodup) (prior : Option Value) (additions : List MemoryFact) :
    ((withFacts f prior additions).map (·.1)).Nodup := by
  unfold withFacts
  split
  next =>
    split
    next => exact erase_keys h _
    next => exact set_keys (erase_keys h _) _ _
  next =>
    split
    next => exact erase_keys h _
    next => exact set_keys (erase_keys h _) _ _
  next => exact set_keys (erase_keys h _) _ _
  next => exact set_keys h _ _

/-- A note printed with a frontmatter and no body, as a head for other text. -/
theorem serializeNote_head (f : Frontmatter) : serializeNote lib.yaml f [] =
    "---\n".toList ++ trimEnd (lib.yaml.stringify (.map f)) ++ closing ++ "\n\n".toList := serializeValue_envelope _ _

theorem mapLast_keys_nodup (tail : Value → Value) {f : Frontmatter} (h : (f.map (·.1)).Nodup) : ((f.mapLast tail).map (·.1)).Nodup := by
  rw [Frontmatter.mapLast_keys]
  exact h

theorem get_erase_self (f : Frontmatter) (key : Text) : (f.erase key).get key = none := by
  unfold Frontmatter.get Frontmatter.erase
  rw [List.find?_eq_none.2]
  · rfl
  · intro e he
    have hne := (List.mem_filter.1 he).2
    simpa using hne

theorem get_eq_none_iff {f : Frontmatter} {key : Text} : f.get key = none ↔ key ∉ f.map (·.1) := by
  unfold Frontmatter.get
  rw [Option.map_eq_none_iff, List.find?_eq_none]
  constructor
  · intro h hmem
    obtain ⟨e, he, rfl⟩ := List.mem_map.1 hmem
    exact h e he (by simp)
  · intro h e he hkey
    rw [decide_eq_true_eq] at hkey
    exact h (hkey ▸ List.mem_map_of_mem he)

theorem get_mapLast_last (tail : Value → Value) {f : Frontmatter} (hkeys : (f.map (·.1)).Nodup) {e : Text × Value}
    (h : f.getLast? = some e) :
    f.get e.1 = some e.2 ∧ (f.mapLast tail).get e.1 = some (tail e.2) := by
  induction f using Frontmatter.mapLast.induct with
  | case1 => cases h
  | case2 d =>
    obtain rfl : d = e := Option.some.inj h
    rw [Frontmatter.mapLast, Frontmatter.get_cons, Frontmatter.get_cons, if_pos rfl, if_pos rfl]
    exact ⟨rfl, rfl⟩
  | case3 d d' rest ih =>
    rw [List.getLast?_cons_cons] at h
    rw [List.map_cons, List.nodup_cons] at hkeys
    have hne : d.1 ≠ e.1 := fun heq => hkeys.1 (heq ▸ List.mem_map_of_mem (List.mem_of_getLast? h))
    rw [Frontmatter.mapLast, Frontmatter.get_cons d, Frontmatter.get_cons d, if_neg hne, if_neg hne]
    exact ih hkeys.2 h

/-- **The records a call adds are read back** under the frontmatter they were added to. -/
theorem appendMemoryFacts_frontmatter (laws : lib.yaml.Lawful tail) {f : Frontmatter} {raw : Text}
    (hraw : (parseNote lib.yaml raw).frontmatter = some f) (hkeys : (f.map (·.1)).Nodup) (original : Option Text)
    (proposals : List FactProposal) (evidence : MemoryEntry) (assigned : Text) :
    (parseNote lib.yaml (appendMemoryFacts lib raw original proposals evidence assigned)).frontmatter =
      some ((withFacts f (priorFacts lib original) (newFacts lib original proposals evidence assigned)).mapLast tail) := by
  unfold appendMemoryFacts
  simp only [hraw]
  rw [serializeNote, serializeValue_envelope, parseNote_serialized laws (withFacts_keys hkeys _ _)]

/-- What the records of a reconciliation make of a frontmatter, read back twice. -/
def recorded (lib : Library) (tail : Value → Value) (prepared : Prepared) (p : Progress) (f : Frontmatter) : Frontmatter :=
  (withFacts f (priorFacts lib prepared.input.raw) (newFacts lib prepared.input.raw p.proposals prepared.input.evidence
    (("\n\n".toList).intercalate p.support))).mapLast tail

theorem recorded_keys {f : Frontmatter} (hkeys : (f.map (·.1)).Nodup) :
    ((recorded lib tail prepared p f).map (·.1)).Nodup :=
  mapLast_keys_nodup tail (withFacts_keys hkeys _ _)

theorem factsHead_eq (laws : lib.yaml.Lawful tail) {f : Frontmatter} {next : Text}
    (hnext : (parseNote lib.yaml next).frontmatter = some f) (hkeys : (f.map (·.1)).Nodup) :
    factsHead lib prepared p.proposals p.support next =
      if (prepared.input.frontmatter lib).isSome then (serializeNote lib.yaml (recorded lib tail prepared p f) []).dropLast
      else serializeNote lib.yaml (recorded lib tail prepared p f) [] := by
  unfold factsHead
  simp only [appendMemoryFacts_frontmatter laws hnext hkeys]
  rfl

/-- **A page without frontmatter** gets its text behind a new one and an empty line. -/
theorem render_of_none (laws : lib.yaml.Lawful tail) (hnone : prepared.input.frontmatter lib = none) :
    (parseNote lib.yaml (render lib prepared p)).body = '\n' :: pageText lib prepared p := by
  have hread : ∀ (f : Frontmatter) (text : Text), (f.map (·.1)).Nodup →
      parseNote lib.yaml (serializeNote lib.yaml f [] ++ text) =
        { frontmatter := some (f.mapLast tail), body := '\n' :: text } := by
    intro f text hkeys
    rw [serializeNote_head, ← parseNote_serialized laws hkeys, List.append_assoc]
    rfl
  unfold render
  simp only [hnone, Option.isSome_none, Bool.false_eq_true, if_false]
  rw [List.append_assoc]
  split
  next => rw [hread _ _ (metadata_keys prepared), pageText]
  next =>
    have hnext : (parseNote lib.yaml (serializeNote lib.yaml prepared.metadata [] ++ newBody lib prepared p)).frontmatter =
        some (prepared.metadata.mapLast tail) := by rw [hread _ _ (metadata_keys prepared)]
    have hkeys := mapLast_keys_nodup tail (metadata_keys prepared)
    rw [factsHead_eq laws hnext hkeys, hnone, Option.isSome_none, if_neg Bool.false_ne_true, hread _ _ (recorded_keys hkeys),
      pageText]

/-- What is read back of a page that had a frontmatter. -/
def Rendered (lib : Library) (prepared : Prepared) (text : Text) (f : Frontmatter) (note : ParsedNote) : Prop :=
  note.frontmatter = some f ∧ (note.body = text ∨ prepared.input.body lib = [] ∧ text = '\n' :: note.body)

/-- **A page with frontmatter** keeps its block, unless facts are proposed. -/
theorem render_of_some (laws : lib.yaml.Lawful tail) {f : Frontmatter} (hsome : prepared.input.frontmatter lib = some f)
    (hnil : prepared.input.body lib = [] → ∃ rest, newBody lib prepared p = '\n' :: rest) :
    Rendered lib prepared (pageText lib prepared p)
      (if p.proposals = [] then f else (recorded lib tail prepared p f).mapLast tail)
      (parseNote lib.yaml (render lib prepared p)) := by
  obtain ⟨raw, hraw, hf⟩ : ∃ raw, prepared.input.raw = some raw ∧ (parseNote lib.yaml raw).frontmatter = some f := by
    obtain ⟨note, hnote, hf⟩ := Option.bind_eq_some_iff.1 hsome
    obtain ⟨raw, hraw, rfl⟩ := Option.map_eq_some_iff.1 hnote
    exact ⟨raw, hraw, hf⟩
  have hbody : prepared.input.body lib = (parseNote lib.yaml raw).body := by
    rw [PrepareInput.body, PrepareInput.parsed, hraw]
    rfl
  have hhead : prepared.head lib = raw.take (raw.length - (parseNote lib.yaml raw).body.length) := by
    rw [Prepared.head, hbody, hraw]
    rfl
  have hkeys : (f.map (·.1)).Nodup := by
    obtain ⟨before, behind, -, -, hparse⟩ := split_of_parseNote hf
    exact laws.keys _ _ hparse
  have hreopened : ∀ more, Rendered lib prepared (newBody lib prepared p ++ more) f
      (parseNote lib.yaml (prepared.head lib ++ newBody lib prepared p ++ more)) := by
    intro more
    rcases parseNote_reopened hf with h | ⟨hempty, h⟩
    · rw [hhead, List.append_assoc, h]
      exact ⟨rfl, Or.inl rfl⟩
    · obtain ⟨rest, hrest⟩ := hnil (hbody.trans hempty)
      have htake : prepared.head lib = raw := by
        rw [hhead, hempty, List.length_nil, Nat.sub_zero, List.take_length]
      rw [htake, hrest, List.append_assoc, List.cons_append, h]
      exact ⟨rfl, Or.inr ⟨hbody.trans hempty, rfl⟩⟩
  unfold render
  simp only [hsome, Option.isSome_some, if_true]
  split
  next => exact hreopened _
  next =>
    have hnext : (parseNote lib.yaml (prepared.head lib ++ newBody lib prepared p)).frontmatter = some f := by
      have h := (hreopened []).1
      rwa [List.append_nil] at h
    have hdrop : (serializeNote lib.yaml (recorded lib tail prepared p f) []).dropLast =
        "---\n".toList ++ trimEnd (lib.yaml.stringify (.map (recorded lib tail prepared p f))) ++ closing ++ ['\n'] := by
      rw [serializeNote_head]
      show (_ ++ (['\n'] ++ ['\n'])).dropLast = _
      rw [← List.append_assoc, List.dropLast_concat]
    rw [factsHead_eq laws hnext hkeys, hsome, Option.isSome_some, if_pos rfl, hdrop, List.append_assoc, List.append_assoc,
      List.singleton_append, parseNote_serialized laws (recorded_keys hkeys)]
    exact ⟨rfl, Or.inl rfl⟩

end Zenod.Engine
