/-
What `applyReconciliation` buffers. An operation that passes its checks quotes
the source (`Resolution`), and each of its effects is a citation behind a line
of the page or a line of its own (`changeOf_link`, `changeOf_write`).

`buffered_of_operations`: whatever the operations, in groups that take effect
or are rolled back, every edit and every addition is one of these.
-/
import Zenod.Engine.Apply

namespace Zenod.Engine

open Text Vault
open Evidence (MemoryEntry)

variable {lib : Library} {prepared : Prepared}

/-! ## An operation with support -/

/-- What `resolve` leaves of an operation: its kind, key and target, and quotes of its sources. -/
structure Resolution (lib : Library) (prepared : Prepared) (before operation : ReconciliationOperation)
    (sources : List ReconciliationSource) : Prop where
  sources_known : ∃ ids, lookupSources prepared before.kind ids = some sources
  kind : operation.kind = before.kind
  factKey : operation.factKey = before.factKey
  targetId : operation.targetId = before.targetId
  sourceQuote : operation.sourceQuote ≠ [] ∧
    canonical lib prepared sources before.sourceQuote maxStatementChars = some operation.sourceQuote
  replacementQuote : ∀ q ∈ given operation.replacementQuote, ∃ quote,
    canonical lib prepared sources quote maxStatementChars = some q
  correctionQuote : operation.kind = .supersede → ∀ q ∈ given operation.correctionQuote, ∃ quote,
    canonical lib prepared sources quote 2400 = some q

theorem given_eq_some {t : Option Text} {q : Text} : given t = some q ↔ t = some q ∧ q ≠ [] := by
  rw [given, Option.filter_eq_some_iff, decide_eq_true_eq]

theorem replacementOf_ok {operation : ReconciliationOperation} {sources : List ReconciliationSource} {t : Option Text}
    (h : replacementOf lib prepared operation sources = .ok t) :
    ∀ q ∈ given t, ∃ quote, canonical lib prepared sources quote maxStatementChars = some q := by
  unfold replacementOf at h
  intro q hq
  split at h
  next hnone =>
    cases h
    rw [hnone] at hq
    cases hq
  next quote _ =>
    split at h
    next => cases h
    next replacement hreplacement =>
      cases h
      obtain rfl : replacement = q := Option.some.inj (given_eq_some.1 hq).1
      split at hreplacement
      next => exact ⟨quote, (given_eq_some.1 hreplacement).1⟩
      next => cases hreplacement

theorem correctionOf_ok {operation : ReconciliationOperation} {sources : List ReconciliationSource} {t : Option Text}
    (h : correctionOf lib prepared operation sources = .ok t) (hkind : operation.kind = .supersede) :
    ∀ q ∈ given t, ∃ quote, canonical lib prepared sources quote 2400 = some q := by
  unfold correctionOf at h
  rw [if_pos hkind] at h
  intro q hq
  split at h
  next hnone =>
    cases h
    rw [hnone] at hq
    cases hq
  next quote _ =>
    split at h
    next => cases h
    next correction hcorrection =>
      cases h
      obtain rfl : correction = q := Option.some.inj (given_eq_some.1 hq).1
      exact ⟨quote, (given_eq_some.1 hcorrection).1⟩

theorem resolve_ok {before operation : ReconciliationOperation} {failure : Option String} {sourceIds ideaIds : List Text}
    {sources : List ReconciliationSource}
    (h : resolve lib prepared before failure sourceIds ideaIds = .ok (operation, sources)) :
    Resolution lib prepared before operation sources := by
  unfold resolve at h
  simp only [] at h
  split at h
  next => cases h
  next =>
  split at h
  next => cases h
  next =>
  split at h
  next => cases h
  next =>
  split at h
  next => cases h
  next sources' hsources =>
  split at h
  next => cases h
  next sourceQuote hquote =>
  cases hreplacement : replacementOf lib prepared before sources' with
  | error reason =>
    rw [hreplacement] at h
    cases h
  | ok replacement =>
  cases hcorrection : correctionOf lib prepared before sources' with
  | error reason =>
    rw [hreplacement, hcorrection] at h
    cases h
  | ok correction =>
    rw [hreplacement, hcorrection] at h
    cases h
    rw [Option.filter_eq_some_iff] at hsources
    rw [given_eq_some] at hquote
    exact {
      sources_known := ⟨sourceIds, hsources.1⟩
      kind := rfl
      factKey := rfl
      targetId := rfl
      sourceQuote := ⟨hquote.2, hquote.1⟩
      replacementQuote := replacementOf_ok hreplacement
      correctionQuote := fun hkind => correctionOf_ok hcorrection hkind }

/-! ## What one operation buffers -/

/-- A citation and the mark of an operation. -/
def markOf (prepared : Prepared) (id : Text) : Text :=
  " ".toList ++ citation prepared ++ " ".toList ++ markerOf id

theorem linkChange_ok {edits : MapOf Edit} {operation : ReconciliationOperation} {id : Text} {target : Target}
    {change : Change} (h : linkChange lib prepared edits operation id target = .ok change) :
    change = .link none ∨ ∃ e : Text × Edit, change = .link (some e) ∧ e.1 = operation.targetId.getD [] ∧
      e.2 = { start := target.start, stop := target.stop
              text := ((edits.get e.1).map (·.text)).getD target.line ++ markOf prepared id } := by
  unfold linkChange at h
  split at h
  next => cases h
  next =>
    simp only [] at h
    split at h
    next =>
      cases h
      exact Or.inl rfl
    next =>
      cases h
      refine Or.inr ⟨_, rfl, rfl, ?_⟩
      simp only [markOf, List.append_assoc]

theorem writeChange_ok {operation : ReconciliationOperation} {sources : List ReconciliationSource} {ideaIds : List Text}
    {id : Text} {change : Change} (h : writeChange lib prepared operation sources ideaIds id = .ok change) :
    ∃ proposal support, change = .write proposal support (additionOf prepared operation id) := by
  unfold writeChange at h
  simp only [] at h
  split at h
  next => cases h
  next =>
    split at h
    next => cases h
    next =>
      cases h
      exact ⟨_, _, rfl⟩

/-- An operation of the list that has passed every check and writes a line of its own. -/
def Written (lib : Library) (prepared : Prepared) (items : List (ReconciliationOperation × Option String))
    (proposal : Option FactProposal) (support : List Text) (addition : Text) : Prop :=
  ∃ item ∈ items, ∃ operation sources ideaIds value, Resolution lib prepared item.1 operation sources ∧
    targetFailure lib prepared operation = none ∧ operation.kind ≠ .linkSource ∧ operation.kind ≠ .clarify ∧
    (operation.kind = .supersede → (targetOf prepared operation).isSome) ∧
    writeChange lib prepared operation sources ideaIds (digest lib value) = .ok (.write proposal support addition)

theorem changeOf_ok {edits : MapOf Edit} {operation : ReconciliationOperation} {sources : List ReconciliationSource}
    {ideaIds : List Text} {id : Text} {change : Change}
    (h : changeOf lib prepared edits operation sources ideaIds id = .ok change) :
    targetFailure lib prepared operation = none ∧
      (change = .settled ∨
      (∃ target, targetOf prepared operation = some target ∧ linkChange lib prepared edits operation id target = .ok change) ∨
      (operation.kind ≠ .linkSource ∧ operation.kind ≠ .clarify ∧
        (operation.kind = .supersede → (targetOf prepared operation).isSome) ∧
        writeChange lib prepared operation sources ideaIds id = .ok change)) := by
  unfold changeOf at h
  split at h
  next => cases h
  next hfailure =>
    refine ⟨hfailure, ?_⟩
    split at h
    next =>
      cases h
      exact Or.inl rfl
    next =>
      split at h
      next => cases h
      next hclarify =>
        split at h
        next target hkind htarget => exact Or.inr (Or.inl ⟨target, htarget, h⟩)
        next => cases h
        next => cases h
        next target htarget hlink =>
          refine Or.inr (Or.inr ⟨fun hkind => ?_, hclarify, fun _ => ?_, h⟩)
          · exact hlink hkind
          · rw [htarget]
            rfl
        next htarget hlink hsupersede =>
          split at h
          next => cases h
          next =>
            refine Or.inr (Or.inr ⟨fun hkind => hlink hkind, hclarify, fun hkind => ?_, h⟩)
            exact absurd hkind fun hkind => hsupersede hkind

/-! ### The buffers of a change -/

def Change.edits : Change → MapOf Edit → MapOf Edit
  | .link (some e), edits => edits.set e.1 e.2
  | _, edits => edits

def Change.additions : Change → List Text
  | .write _ _ addition => [addition]
  | _ => []

def Change.proposals : Change → List FactProposal
  | .write proposal _ _ => proposal.toList
  | _ => []

def Change.support : Change → List Text
  | .write _ support _ => support
  | _ => []

/-- The second progress has the buffers of the first, and the change. -/
structure Buffers (change : Change) (p q : Progress) : Prop where
  edits : q.edits = change.edits p.edits
  additions : q.additions = p.additions ++ change.additions
  proposals : q.proposals = p.proposals ++ change.proposals
  support : q.support = change.support.foldl addTo p.support

theorem Buffers.settled {p q : Progress} (hedits : q.edits = p.edits) (hadditions : q.additions = p.additions)
    (hproposals : q.proposals = p.proposals) (hsupport : q.support = p.support) : Buffers .settled p q where
  edits := hedits
  additions := by rw [hadditions]; exact (List.append_nil _).symm
  proposals := by rw [hproposals]; exact (List.append_nil _).symm
  support := hsupport

theorem accept_buffers (p : Progress) (change : Change) (effect : Text) (isConflict : Bool) (operation : AppliedOperation) :
    Buffers change p (p.accept change effect isConflict operation) := by
  cases change with
  | settled => exact Buffers.settled rfl rfl rfl rfl
  | link edit =>
    have hnil : ∀ {α : Type} (l : List α), l = l ++ [] := fun l => (List.append_nil l).symm
    cases edit with
    | none => exact ⟨rfl, hnil _, hnil _, rfl⟩
    | some e => exact ⟨rfl, hnil _, hnil _, rfl⟩
  | write proposal support addition => cases isConflict <;> exact ⟨rfl, rfl, rfl, rfl⟩

/-- An operation that has passed every check for a change to the page. -/
def Accepted (lib : Library) (prepared : Prepared) (edits : MapOf Edit) (item : ReconciliationOperation × Option String)
    (change : Change) : Prop :=
  ∃ operation sources ideaIds value, Resolution lib prepared item.1 operation sources ∧
    changeOf lib prepared edits operation sources ideaIds (digest lib value) = .ok change

theorem decideOperation_buffers {p : Progress} {item : ReconciliationOperation × Option String}
    {operation : ReconciliationOperation} {sources : List ReconciliationSource} {sourceIds ideaIds : List Text}
    (hresolved : Resolution lib prepared item.1 operation sources) :
    ∃ change, Buffers change p (decideOperation lib prepared p operation sources sourceIds ideaIds) ∧
      (change = .settled ∨ Accepted lib prepared p.edits item change) := by
  unfold decideOperation
  simp only []
  split
  next =>
    refine ⟨.settled, ?_, Or.inl rfl⟩
    split
    next => exact Buffers.settled rfl rfl rfl rfl
    next => exact Buffers.settled rfl rfl rfl rfl
  next =>
    split
    next => exact ⟨.settled, Buffers.settled rfl rfl rfl rfl, Or.inl rfl⟩
    next change hchange =>
      exact ⟨change, accept_buffers p change _ _ _, Or.inr ⟨operation, sources, _, _, hresolved, hchange⟩⟩

/-- **What one operation buffers**: nothing, or the change that it has passed every check for. -/
theorem applyOperation_buffers (p : Progress) (claims : MapOf (List Decision))
    (item : ReconciliationOperation × Option String) :
    ∃ change, Buffers change p (applyOperation lib prepared (p, claims) item).1 ∧
      (change = .settled ∨ Accepted lib prepared p.edits item change) := by
  unfold applyOperation
  simp only []
  split
  next => exact ⟨.settled, Buffers.settled rfl rfl rfl rfl, Or.inl rfl⟩
  next =>
    split
    next => exact ⟨.settled, Buffers.settled rfl rfl rfl rfl, Or.inl rfl⟩
    next operation sources hresolve =>
      split
      next => exact ⟨.settled, Buffers.settled rfl rfl rfl rfl, Or.inl rfl⟩
      next =>
        obtain ⟨change, hbuffers, haccepted⟩ := decideOperation_buffers (resolve_ok hresolve)
        exact ⟨change, ⟨hbuffers.edits, hbuffers.additions, hbuffers.proposals, hbuffers.support⟩, haccepted⟩

/-! ## What a run buffers -/

theorem MapOf.mem_of_get {α : Type} {m : MapOf α} {key : Text} {a : α} (h : m.get key = some a) : (key, a) ∈ m := by
  obtain ⟨e, he, rfl⟩ := Option.map_eq_some_iff.1 h
  have hkey := List.find?_some he
  rw [decide_eq_true_eq] at hkey
  rw [← hkey]
  exact List.mem_of_find?_eq_some he

theorem MapOf.mem_set {α : Type} {m : MapOf α} {key : Text} {a : α} {e : Text × α} (h : e ∈ m.set key a) :
    e = (key, a) ∨ e ∈ m := by
  unfold MapOf.set at h
  split at h
  next =>
    obtain ⟨d, hd, rfl⟩ := List.mem_map.1 h
    split
    next => exact Or.inl rfl
    next => exact Or.inr hd
  next =>
    rcases List.mem_append.1 h with h | h
    · exact Or.inr h
    · exact Or.inl (List.mem_singleton.1 h)

theorem subset_addTo (set : List Text) (t : Text) : set ⊆ addTo set t := by
  unfold addTo
  split
  next => exact fun _ h => h
  next => exact List.subset_append_left set [t]

theorem mem_addTo (set : List Text) (t : Text) : t ∈ addTo set t := by
  unfold addTo
  split
  next h => exact List.contains_iff_mem.1 h
  next => exact List.mem_append_right set (List.mem_singleton_self t)

theorem subset_foldl_addTo (ts set : List Text) : set ⊆ ts.foldl addTo set ∧ ts ⊆ ts.foldl addTo set := by
  induction ts generalizing set with
  | nil => exact ⟨fun _ h => h, List.nil_subset _⟩
  | cons t ts ih =>
    obtain ⟨hset, hts⟩ := ih (addTo set t)
    exact ⟨List.Subset.trans (subset_addTo set t) hset, List.cons_subset.2 ⟨hset (mem_addTo set t), hts⟩⟩

/-- A citation mark with the digest of something. -/
def IsMark (lib : Library) (prepared : Prepared) (mark : Text) : Prop :=
  ∃ value, mark = markOf prepared (digest lib value)

/-- **What is buffered at any time**: citations behind targets, and lines and facts of operations that have
passed every check. -/
structure Buffered (lib : Library) (prepared : Prepared) (items : List (ReconciliationOperation × Option String))
    (p : Progress) : Prop where
  edits : ∀ e ∈ p.edits, ∃ (target : Target) (marks : List Text), prepared.targets.get e.1 = some target ∧
    e.2.start = target.start ∧ e.2.stop = target.stop ∧ e.2.text = target.line ++ marks.flatten ∧
    ∀ mark ∈ marks, IsMark lib prepared mark
  additions : ∀ a ∈ p.additions, ∃ proposal support, Written lib prepared items proposal support a
  proposals : ∀ q ∈ p.proposals, ∃ support addition, Written lib prepared items (some q) support addition ∧
    support ⊆ p.support

variable {items : List (ReconciliationOperation × Option String)} {p q : Progress}

theorem buffered_empty : Buffered lib prepared items {} where
  edits := fun e he => by cases he
  additions := fun a ha => by cases ha
  proposals := fun q hq => by cases hq

theorem Buffered.settled (h : Buffered lib prepared items p) (hbuffers : Buffers .settled p q) :
    Buffered lib prepared items q := by
  have hadditions : q.additions = p.additions := hbuffers.additions.trans (List.append_nil _)
  have hproposals : q.proposals = p.proposals := hbuffers.proposals.trans (List.append_nil _)
  have hsupport : q.support = p.support := hbuffers.support
  constructor
  · rw [hbuffers.edits]
    exact h.edits
  · rw [hadditions]
    exact h.additions
  · rw [hproposals, hsupport]
    exact h.proposals

theorem Buffered.link {edit : Text × Edit} {operation : ReconciliationOperation} {value : Value} {target : Target}
    (h : Buffered lib prepared items p) (hbuffers : Buffers (.link (some edit)) p q)
    (htarget : targetOf prepared operation = some target) (hid : edit.1 = operation.targetId.getD [])
    (hedit : edit.2 = { start := target.start, stop := target.stop
                        text := ((p.edits.get edit.1).map (·.text)).getD target.line ++ markOf prepared (digest lib value) }) :
    Buffered lib prepared items q := by
  have hadditions : q.additions = p.additions := hbuffers.additions.trans (List.append_nil _)
  have hproposals : q.proposals = p.proposals := hbuffers.proposals.trans (List.append_nil _)
  have hsupport : q.support = p.support := hbuffers.support
  have hget : prepared.targets.get edit.1 = some target := by
    obtain ⟨id, hgiven, hget⟩ := Option.bind_eq_some_iff.1 htarget
    rw [hid, (given_eq_some.1 hgiven).1]
    exact hget
  have hmark : IsMark lib prepared (markOf prepared (digest lib value)) := ⟨value, rfl⟩
  constructor
  · intro e he
    rw [hbuffers.edits] at he
    rcases MapOf.mem_set he with rfl | he
    · show ∃ (t : Target) (marks : List Text), prepared.targets.get edit.1 = some t ∧ edit.2.start = t.start ∧
        edit.2.stop = t.stop ∧ edit.2.text = t.line ++ marks.flatten ∧ ∀ mark ∈ marks, IsMark lib prepared mark
      rw [hedit]
      cases hprior : p.edits.get edit.1 with
      | none =>
        refine ⟨target, [markOf prepared (digest lib value)], hget, rfl, rfl, ?_, ?_⟩
        · rw [List.flatten_singleton]
          rfl
        · intro mark hm
          rw [List.mem_singleton.1 hm]
          exact hmark
      | some prior =>
        -- The line was edited before: the citation goes behind those that are there.
        obtain ⟨t, marks, ht, -, -, htext, hmarks⟩ := h.edits _ (MapOf.mem_of_get hprior)
        obtain rfl : t = target := Option.some.inj (ht.symm.trans hget)
        refine ⟨t, marks ++ [markOf prepared (digest lib value)], hget, rfl, rfl, ?_, ?_⟩
        · show prior.text ++ _ = _
          rw [htext, List.flatten_append, List.flatten_singleton, List.append_assoc]
        · intro mark hm
          rcases List.mem_append.1 hm with hm | hm
          · exact hmarks mark hm
          · rw [List.mem_singleton.1 hm]
            exact hmark
    · exact h.edits e he
  · rw [hadditions]
    exact h.additions
  · rw [hproposals, hsupport]
    exact h.proposals

theorem Buffered.write {proposal : Option FactProposal} {support : List Text} {addition : Text}
    (h : Buffered lib prepared items p) (hbuffers : Buffers (.write proposal support addition) p q)
    (hwritten : Written lib prepared items proposal support addition) : Buffered lib prepared items q := by
  obtain ⟨hset, hsupport⟩ := subset_foldl_addTo support p.support
  have hq : q.support = support.foldl addTo p.support := hbuffers.support
  constructor
  · rw [hbuffers.edits]
    exact h.edits
  · rw [hbuffers.additions]
    intro a ha
    rcases List.mem_append.1 ha with ha | ha
    · exact h.additions a ha
    · obtain rfl : a = addition := List.mem_singleton.1 ha
      exact ⟨proposal, support, hwritten⟩
  · rw [hbuffers.proposals, hq]
    intro r hr
    rcases List.mem_append.1 hr with hr | hr
    · obtain ⟨s, a, hwritten, hs⟩ := h.proposals r hr
      exact ⟨s, a, hwritten, List.Subset.trans hs hset⟩
    · obtain rfl : proposal = some r := by
        cases proposal with
        | none => cases hr
        | some r' => rw [List.mem_singleton.1 hr]
      exact ⟨support, addition, hwritten, hsupport⟩

/-- **One operation keeps the invariant.** -/
theorem Buffered.applyOperation {claims : MapOf (List Decision)} {item : ReconciliationOperation × Option String}
    (h : Buffered lib prepared items p) (hitem : item ∈ items) :
    Buffered lib prepared items (applyOperation lib prepared (p, claims) item).1 := by
  obtain ⟨change, hbuffers, rfl | ⟨operation, sources, ideaIds, value, hresolved, hchange⟩⟩ :=
    applyOperation_buffers p claims item
  · exact h.settled hbuffers
  · obtain ⟨hfailure, rfl | ⟨target, htarget, hlink⟩ | ⟨hkind, hclarify, hsupersede, hwrite⟩⟩ := changeOf_ok hchange
    · exact h.settled hbuffers
    · rcases linkChange_ok hlink with rfl | ⟨edit, rfl, hid, hedit⟩
      · exact h.settled ⟨hbuffers.edits, hbuffers.additions, hbuffers.proposals, hbuffers.support⟩
      · exact h.link hbuffers htarget hid hedit
    · obtain ⟨proposal, support, rfl⟩ := writeChange_ok hwrite
      exact h.write hbuffers ⟨item, hitem, operation, sources, ideaIds, value, hresolved, hfailure, hkind,
        hclarify, hsupersede, hwrite⟩

/-- **A group keeps it**, whether it takes effect or is rolled back. -/
theorem Buffered.runGroup {group : List (ReconciliationOperation × Option String)}
    (h : Buffered lib prepared items p) (hgroup : group ⊆ items) :
    Buffered lib prepared items (runGroup lib prepared p group) := by
  have hfold : Buffered lib prepared items (group.foldl (Engine.applyOperation lib prepared) (p, [])).1 :=
    List.foldlRecOn group _ (motive := fun state : Progress × MapOf (List Decision) => Buffered lib prepared items state.1) h
      fun state hstate item hitem => hstate.applyOperation (hgroup hitem)
  unfold Engine.runGroup
  simp only []
  split
  next => exact hfold
  next => exact h.settled (Buffers.settled rfl rfl rfl rfl)

theorem Buffered.accountIdea {idea : ReconciliationIdea} (h : Buffered lib prepared items p) :
    Buffered lib prepared items (accountIdea prepared p idea) := by
  have hfail : ∀ sourceIds ideaIds reason, Buffered lib prepared items (p.fail sourceIds ideaIds reason) :=
    fun _ _ _ => h.settled (Buffers.settled rfl rfl rfl rfl)
  unfold Engine.accountIdea
  repeat' split
  all_goals first | exact h | exact hfail _ _ _

/-- **Whatever the operations**, all that is buffered has passed every check. -/
theorem buffered_of_operations (lib : Library) (prepared : Prepared) (items : List (ReconciliationOperation × Option String)) :
    Buffered lib prepared items (bufferedChanges lib prepared items) := by
  refine List.foldlRecOn _ _ ?_ fun p hp idea _ => hp.accountIdea
  exact List.foldlRecOn _ _ buffered_empty fun p hp group hgroup => hp.runGroup (UnionFind.group_subset hgroup)

end Zenod.Engine
