/-
Who writes a page. What reconciliation puts into a body is markup of the host
and slices of the evidence, and a fact's statement and quotes are slices of
the evidence too: the strings a model answers with only address them.
-/
import Zenod.Engine.Preserve

namespace Zenod.Engine

open Text Vault
open Evidence (MemoryEntry)

variable {lib : Library} {prepared : Prepared} {items : List (ReconciliationOperation × Option String)}
  {p : Progress} {tail : Value → Value}

/-- The evidence that sources and candidates are addressed in. -/
def PrepareInput.evidenceText (input : PrepareInput) : Text := input.sourceContent.getD input.evidence.content

/-- Sources and candidates are exact slices of the evidence. -/
structure PrepareInput.SourcesExact (input : PrepareInput) : Prop where
  sources : ∀ s ∈ input.sources, s.Exact input.evidenceText
  candidates : ∀ c ∈ candidateSources input, c.toReconciliationSource.Exact input.evidenceText

/-! ## What is presented are the sources -/

theorem packSources_subset (sources : List ReconciliationSource) : packSources sources ⊆ sources := by
  unfold packSources
  refine List.foldlRecOn _ _ (motive := (· ⊆ sources)) (List.nil_subset _) fun kept hkept s hs => ?_
  split
  next => exact List.append_subset.2 ⟨hkept, List.cons_subset.2 ⟨hs, List.nil_subset _⟩⟩
  next => exact hkept

theorem packed_subset (input : PrepareInput) (ideas : List ReconciliationIdea) {valid : List ReconciliationAddCandidate} :
    (packed input ideas valid).sources ⊆ input.sources ∧ (packed input ideas valid).candidates ⊆ valid := by
  unfold packed
  split
  next =>
    refine List.foldlRecOn _ _ (motive := fun packet : Packet => packet.sources ⊆ input.sources ∧ packet.candidates ⊆ valid)
      ⟨List.nil_subset _, List.nil_subset _⟩ fun packet hpacket idea _ => ?_
    unfold packIdea
    simp only []
    split
    next =>
      exact ⟨List.append_subset.2 ⟨hpacket.1, List.filter_subset_self _⟩, List.append_subset.2 ⟨hpacket.2, List.filter_subset_self _⟩⟩
    next => exact hpacket
  next => exact ⟨packSources_subset _, List.nil_subset _⟩

theorem presented_exact {input : PrepareInput} (hexact : input.SourcesExact)
    (h : prepareReconciliation lib input = some prepared) (kind : OperationKind) :
    ∀ s ∈ sourceTable prepared kind, s.Exact input.evidenceText := by
  unfold prepareReconciliation at h
  simp only [] at h
  split at h
  next => cases h
  next =>
    cases h
    intro s hs
    unfold sourceTable at hs
    split at hs
    next =>
      obtain ⟨c, hc, rfl⟩ := List.mem_map.1 hs
      obtain ⟨d, hd, rfl⟩ := List.mem_map.1 (List.mem_filter.1 hc).1
      exact hexact.candidates d (List.mem_filter.1 ((packed_subset input _).2 hd)).1
    next => exact hexact.sources s ((packed_subset input _).1 hs)

theorem lookupSources_mem {kind : OperationKind} {ids : List Text} {sources : List ReconciliationSource}
    (h : lookupSources prepared kind ids = some sources) : ∀ s ∈ sources, s ∈ sourceTable prepared kind := by
  unfold lookupSources at h
  induction ids generalizing sources with
  | nil =>
    cases h
    exact fun s hs => by cases hs
  | cons id ids ih =>
    rw [List.mapM_cons] at h
    obtain ⟨s, hs, h⟩ := Option.bind_eq_some_iff.1 h
    obtain ⟨rest, hrest, h⟩ := Option.bind_eq_some_iff.1 h
    cases h
    intro t ht
    rcases List.mem_cons.1 ht with rfl | ht
    · exact List.mem_of_find?_eq_some hs
    · exact ih hrest t ht

/-- **A quote that an operation is left with is a slice of the evidence.** -/
theorem canonical_slice (hexact : prepared.input.SourcesExact)
    (hprepared : prepareReconciliation lib prepared.input = some prepared) {kind : OperationKind} {ids : List Text}
    {sources : List ReconciliationSource} (hsources : lookupSources prepared kind ids = some sources) {quote found : Text}
    {limit : Nat} (h : canonical lib prepared sources quote limit = some found) :
    found <:+: prepared.input.evidenceText := by
  refine canonicalSourceQuote_infix ?_ h
  cases hcontent : prepared.input.sourceContent with
  | none =>
    exact Or.inr ⟨rfl, fun s hs => presented_exact hexact hprepared kind s (lookupSources_mem hsources s hs)⟩
  | some content =>
    left
    rw [PrepareInput.evidenceText, hcontent]
    rfl

/-! ## What is written -/

variable {before operation : ReconciliationOperation} {sources : List ReconciliationSource}

theorem optional_slice {E : Text} {t : Option Text} (h : ∀ q ∈ given t, q <:+: E) : ∀ q ∈ t, q <:+: E := by
  intro q hq
  by_cases hnil : q = []
  · rw [hnil]
    exact List.nil_infix
  · exact h q (given_eq_some.2 ⟨hq, hnil⟩)

/-- The quotes of an operation with support are slices, a correction's report too. -/
structure Quoted (E : Text) (operation : ReconciliationOperation) : Prop where
  sourceQuote : operation.sourceQuote <:+: E
  replacementQuote : ∀ q ∈ operation.replacementQuote, q <:+: E
  correctionQuote : operation.kind = .supersede → ∀ q ∈ operation.correctionQuote, q <:+: E

theorem quoted_of_resolution (hexact : prepared.input.SourcesExact)
    (hprepared : prepareReconciliation lib prepared.input = some prepared)
    (h : Resolution lib prepared before operation sources) : Quoted prepared.input.evidenceText operation := by
  obtain ⟨ids, hsources⟩ := h.sources_known
  refine ⟨canonical_slice hexact hprepared hsources h.sourceQuote.2, optional_slice fun q hq => ?_,
    fun hkind => optional_slice fun q hq => ?_⟩
  · obtain ⟨quote, hquote⟩ := h.replacementQuote q hq
    exact canonical_slice hexact hprepared hsources hquote
  · obtain ⟨quote, hquote⟩ := h.correctionQuote hkind q hq
    exact canonical_slice hexact hprepared hsources hquote

theorem Quoted.statement {E : Text} (h : Quoted E operation) : statementOf operation <:+: E := by
  unfold statementOf
  split
  next hkind =>
    cases hr : operation.replacementQuote with
    | some q => exact h.replacementQuote q hr
    | none =>
      cases hc : operation.correctionQuote with
      | some q => exact h.correctionQuote hkind q hc
      | none => exact h.sourceQuote
  next => exact h.sourceQuote

/-- The host's own words, and slices of the evidence on one line. -/
inductive HostText (lib : Library) (prepared : Prepared) : Text → Prop
  | newline : HostText lib prepared ['\n']
  | space : HostText lib prepared [' ']
  | bullet : HostText lib prepared "- ".toList
  | correction : HostText lib prepared "**Correction:** ".toList
  | conflict : HostText lib prepared "**Unresolved conflict:** ".toList
  | citation : HostText lib prepared (citation prepared)
  | marker (value : Value) : HostText lib prepared (markerOf (digest lib value))
  | link {link : Text} (h : link ∈ prepared.input.links) : HostText lib prepared link
  | quote {slice : Text} (h : slice <:+: prepared.input.evidenceText) : HostText lib prepared (flatten slice)

/-- A text put together from the host's words and slices. -/
def Authored (lib : Library) (prepared : Prepared) (t : Text) : Prop :=
  ∃ parts : List Text, t = parts.flatten ∧ ∀ part ∈ parts, HostText lib prepared part

theorem Authored.one {t : Text} (h : HostText lib prepared t) : Authored lib prepared t :=
  ⟨[t], List.flatten_singleton.symm, fun part hpart => by rw [List.mem_singleton.1 hpart]; exact h⟩

theorem Authored.nil : Authored lib prepared [] := ⟨[], rfl, fun part hpart => by cases hpart⟩

theorem Authored.append {s t : Text} (hs : Authored lib prepared s) (ht : Authored lib prepared t) :
    Authored lib prepared (s ++ t) := by
  obtain ⟨ss, rfl, hss⟩ := hs
  obtain ⟨ts, rfl, hts⟩ := ht
  refine ⟨ss ++ ts, List.flatten_append.symm, fun part hpart => ?_⟩
  exact (List.mem_append.1 hpart).elim (hss part) (hts part)

theorem authored_mark (value : Value) : Authored lib prepared (markOf prepared (digest lib value)) :=
  (((Authored.one HostText.space).append (Authored.one HostText.citation)).append (Authored.one HostText.space)).append
    (Authored.one (HostText.marker value))

theorem authored_addition (h : Quoted prepared.input.evidenceText operation) (value : Value) :
    Authored lib prepared (additionOf prepared operation (digest lib value)) := by
  have hqualifier : Authored lib prepared (qualifierOf operation.kind) := by
    cases operation.kind with
    | supersede => exact Authored.one HostText.correction
    | conflict => exact Authored.one HostText.conflict
    | _ => exact Authored.nil
  have hbullet : Authored lib prepared "\n- ".toList :=
    (Authored.one HostText.newline).append (Authored.one HostText.bullet)
  have hline := (hbullet.append hqualifier).append (Authored.one (HostText.quote h.statement))
  have hall := hline.append (authored_mark value)
  unfold additionOf
  rw [markOf] at hall
  simp only [List.append_assoc] at hall ⊢
  exact hall

theorem authored_links (body : Text) : Authored lib prepared (linksTail prepared body) := by
  have hnewline : Authored lib prepared "\n".toList := Authored.one HostText.newline
  have hjoined : ∀ links : List Text, links ⊆ prepared.input.links → Authored lib prepared ([' '].intercalate links) := by
    intro links
    induction links with
    | nil => exact fun _ => Authored.nil
    | cons l links ih =>
      intro hsub
      obtain ⟨hl, hsub⟩ := List.cons_subset.1 hsub
      cases links with
      | nil => simpa using Authored.one (HostText.link hl)
      | cons m links =>
        rw [List.intercalate_cons_cons]
        exact ((Authored.one (HostText.link hl)).append (Authored.one HostText.space)).append (ih hsub)
  unfold linksTail
  simp only []
  split
  next => exact ((hnewline.append hnewline).append (hjoined _ (List.take_subset 3 _))).append hnewline
  next => exact Authored.nil

/-- **Every piece put into a body** is the host's, or quotes the evidence. -/
theorem authored_piece (hexact : prepared.input.SourcesExact)
    (hprepared : prepareReconciliation lib prepared.input = some prepared) {piece : Text}
    (h : Piece lib prepared items piece) : Authored lib prepared piece := by
  cases h with
  | mark value => exact authored_mark value
  | line hwritten =>
    obtain ⟨item, -, operation, sources, ideaIds, value, hresolved, -, -, -, -, hwrite⟩ := hwritten
    obtain ⟨_, _, heq⟩ := writeChange_ok hwrite
    obtain ⟨-, -, rfl⟩ := Change.write.inj heq
    exact authored_addition (quoted_of_resolution hexact hprepared hresolved) value
  | links body => exact authored_links body

/-! ## What is recorded -/

/-- What a fact says and quotes are slices of a text. -/
structure QuotedFact (E : Text) (f : FactProposal) : Prop where
  statement : f.statement <:+: E
  correctionQuote : ∀ q ∈ f.correctionQuote, q <:+: E
  effectiveDateQuote : ∀ q ∈ f.effectiveDateQuote, q <:+: E
  verificationQuote : ∀ q ∈ f.verificationQuote, q <:+: E

theorem quoted_proposal (hexact : prepared.input.SourcesExact)
    (hprepared : prepareReconciliation lib prepared.input = some prepared) {q : FactProposal} {support : List Text}
    {addition : Text} (h : Written lib prepared items (some q) support addition) :
    QuotedFact prepared.input.evidenceText q := by
  obtain ⟨item, -, operation, sources, ideaIds, value, hresolved, -, -, -, -, hwrite⟩ := h
  obtain ⟨key, -, rfl, -, -⟩ := writeChange_proposal hwrite
  have hquoted := quoted_of_resolution hexact hprepared hresolved
  have hsupported : ∀ {t : Option Text} {context : List ReconciliationSource} {q : Text}, ((given t).bind fun q =>
      canonicalSourceQuote lib.unicode context q 2400 (some prepared.input.evidenceText)) = some q →
      q <:+: prepared.input.evidenceText := by
    intro t context q h
    obtain ⟨quote, -, hquote⟩ := Option.bind_eq_some_iff.1 h
    exact canonicalSourceQuote_infix (Or.inl rfl) hquote
  constructor
  · exact hquoted.statement
  · intro q hq
    have hq : (if operation.kind = .supersede then operation.correctionQuote else none) = some q := hq
    split at hq
    next hkind => exact hquoted.correctionQuote hkind q hq
    next => cases hq
  · exact fun q hq => hsupported hq
  · exact fun q hq => hsupported hq

theorem verificationScope_eq_some {quote : Option Text} {statement : Text} {evidence : MemoryEntry} {content q : Text}
    (h : verificationScope lib quote statement evidence content = some q) : quote = some q := by
  unfold verificationScope at h
  split at h
  next => cases h
  next q' hquote =>
    simp only [] at h
    split at h
    next => cases h
    next =>
      split at h
      next =>
        split at h
        next => cases h
        next =>
          split at h
          next =>
            cases h
            exact (Option.filter_eq_some_iff.1 hquote).1
          next => cases h
      next => cases h

/-- A record quotes what its proposal quotes. -/
theorem QuotedFact.record {E : Text} {prior additions : List MemoryFact} {evidence : MemoryEntry} {assigned : Text}
    {q : FactProposal} {fact : MemoryFact} (h : QuotedFact E q) (hfact : factOf lib prior additions evidence assigned q = some fact) :
    QuotedFact E fact.toFactProposal := by
  have hfilter : ∀ {t : Option Text} {P : Text → Bool}, (∀ q ∈ t, q <:+: E) → ∀ q ∈ t.filter P, q <:+: E :=
    fun ht q hq => ht q (Option.filter_eq_some_iff.1 hq).1
  unfold factOf at hfact
  split at hfact
  next => cases hfact
  next =>
    simp only [] at hfact
    split at hfact
    next => cases hfact
    next =>
      cases hfact
      constructor
      · exact h.statement
      · exact hfilter (hfilter h.correctionQuote)
      · intro r hr
        simp only [] at hr
        split at hr
        next => exact hfilter h.effectiveDateQuote r hr
        next => cases hr
      · exact fun r hr => h.verificationQuote r (verificationScope_eq_some hr)

theorem quoted_newFacts {E : Text} {proposals : List FactProposal} (h : ∀ q ∈ proposals, QuotedFact E q)
    (raw : Option Text) (evidence : MemoryEntry) (assigned : Text) :
    ∀ fact ∈ newFacts lib raw proposals evidence assigned, QuotedFact E fact.toFactProposal := by
  have hadd : ∀ prior, ∀ fact ∈ addFacts lib prior evidence assigned proposals, QuotedFact E fact.toFactProposal := by
    intro prior
    unfold addFacts
    refine List.foldlRecOn _ _ (motive := fun facts : List MemoryFact => ∀ fact ∈ facts, QuotedFact E fact.toFactProposal)
      (fun fact hfact => by cases hfact) fun additions hadditions q hq fact hfact => ?_
    rcases List.mem_append.1 hfact with hfact | hfact
    · exact hadditions fact hfact
    · exact (h q (List.mem_of_mem_take hq)).record (Option.mem_toList.1 hfact)
  unfold newFacts
  split
  next => exact hadd _
  next => exact hadd _
  next => exact fun fact hfact => by cases hfact

/-- The facts that a reconciliation adds to the page's. -/
def recordedFacts (lib : Library) (prepared : Prepared) (operations : List ReconciliationOperation) : List MemoryFact :=
  let p := bufferedChanges lib prepared (operations.flatMap (expandOperation prepared))
  newFacts lib prepared.input.raw p.proposals prepared.input.evidence (("\n\n".toList).intercalate p.support)

theorem skyInput_exact (raw : Text) : (skyInput raw).SourcesExact where
  sources s hs := by
    rw [List.mem_singleton.1 hs]
    exact ⟨[], [], rfl, rfl, rfl⟩
  candidates c hc := by
    rw [List.mem_singleton.1 hc]
    exact ⟨[], [], rfl, rfl, rfl⟩

end Zenod.Engine
