/-
Whether reconciliation preserves a page. Its body always grows by insertion
only. Its frontmatter is printed anew when facts are proposed, and a block is
printed without the white space at its end: a value that ends in it changes
when it comes last. `applyReconciliation_preserves` says when none does,
because the value survives or because a record of the facts comes behind it.
-/
import Zenod.Engine.Frame
import Zenod.Vault.YamlModel

namespace Zenod.Engine

open Text Vault
open Evidence (MemoryEntry)

variable {lib : Library} {prepared : Prepared} {items : List (ReconciliationOperation × Option String)}
  {p : Progress} {tail : Value → Value}

/-! ## Facts that are recorded -/

/-- A key that a fact is recorded under. -/
def Recordable (key : Text) : Prop := trim key ≠ [] ∧ utf16Length key ≤ 160

theorem utf16Length_le (t : Text) : utf16Length t ≤ 2 * t.length := by
  induction t with
  | nil => exact Nat.le.refl
  | cons c t ih =>
    have hc : units c ≤ 2 := by
      unfold units
      split <;> omega
    rw [utf16Length_cons, List.length_cons]
    omega

/-- The keys that are made for a target or a report are short and not blank. -/
theorem recordable_digest {name : Text} {c : Char} {rest : Text} (hname : name = c :: rest) (hspace : Js.isSpace c = false)
    (hlength : name.length ≤ 50) (value : Value) : Recordable (name ++ digest lib value) := by
  constructor
  · refine trim_ne_nil_iff.2 ⟨c, ?_, hspace⟩
    rw [hname]
    exact List.mem_cons_self
  · have hdigest : (digest lib value).length ≤ 24 := List.length_take_le _ _
    have := utf16Length_le (name ++ digest lib value)
    rw [List.length_append] at this
    omega

/-- **A proposal is recorded** when nothing was before it: its key and statement must be of use, and the statement in
the evidence. -/
theorem factOf_isSome {evidence : MemoryEntry} {assigned : Text} {q : FactProposal} :
    (factOf lib [] [] evidence assigned q).isSome ↔ Recordable q.key ∧ trim q.statement ≠ [] ∧
      utf16Length q.statement ≤ 1600 ∧ includes assigned q.statement = true := by
  unfold factOf
  split
  next h =>
    rw [Option.isSome_none, Bool.false_eq_true, false_iff]
    rintro ⟨⟨hkey, hlength⟩, hstatement, hbound, hincludes⟩
    rcases h with h | h | h | h | h
    · exact hkey h
    · omega
    · exact hstatement h
    · omega
    · rw [hincludes] at h
      cases h
  next h =>
    simp only [not_or, Bool.not_eq_false, Nat.not_lt] at h
    exact ⟨fun _ => ⟨⟨h.1, h.2.1⟩, h.2.2⟩, fun _ => rfl⟩

theorem addFacts_ne_nil {prior : List MemoryFact} {evidence : MemoryEntry} {assigned : Text} {q : FactProposal}
    {rest : List FactProposal} (h : (factOf lib prior [] evidence assigned q).isSome) :
    addFacts lib prior evidence assigned (q :: rest) ≠ [] := by
  obtain ⟨fact, hfact⟩ := Option.isSome_iff_exists.1 h
  unfold addFacts
  rw [List.take_succ_cons, List.foldl_cons, hfact]
  refine List.foldlRecOn _ _ (motive := (· ≠ [])) (List.cons_ne_nil _ _) fun additions hne _ _ => ?_
  exact fun h => hne (List.append_eq_nil_iff.1 h).1

theorem addFacts_singleton (prior : List MemoryFact) (evidence : MemoryEntry) (assigned : Text) (q : FactProposal) :
    addFacts lib prior evidence assigned [q] = (factOf lib prior [] evidence assigned q).toList := rfl

/-- No facts to keep, and room for new ones. -/
def Vacant : Option Value → Prop
  | none | some (.list []) => True
  | _ => False

theorem newFacts_of_vacant {raw : Option Text} (h : Vacant (priorFacts lib raw)) (proposals : List FactProposal)
    (evidence : MemoryEntry) (assigned : Text) :
    newFacts lib raw proposals evidence assigned = addFacts lib [] evidence assigned proposals := by
  unfold newFacts
  split
  next items heq =>
    rw [heq] at h
    cases items with
    | nil => rfl
    | cons v items => cases h
  next => rfl
  next v hlist heq =>
    rw [heq] at h
    cases v with
    | list items => exact absurd rfl (hlist items)
    | _ => cases h

/-! ## Keys of a frontmatter with facts -/

theorem get_erase {f : Frontmatter} {key other : Text} (h : key ≠ other) : (f.erase other).get key = f.get key := by
  unfold Frontmatter.get Frontmatter.erase
  congr 1
  induction f with
  | nil => rfl
  | cons e f ih =>
    by_cases he : e.1 = other
    · have hne : e.1 ≠ key := fun hk => h (hk.symm.trans he)
      rw [List.filter_cons_of_neg (by simpa using he), List.find?_cons_of_neg (by simpa using hne), ih]
    · rw [List.filter_cons_of_pos (by simpa using he), List.find?_cons, List.find?_cons, ih]

theorem get_append_other {f : Frontmatter} {key other : Text} {value : Value} (h : key ≠ other) :
    Frontmatter.get (f ++ [(other, value)]) key = f.get key := by
  induction f with
  | nil => rw [List.nil_append, Frontmatter.get_cons, if_neg (Ne.symm h)]
  | cons e f ih => rw [List.cons_append, Frontmatter.get_cons, Frontmatter.get_cons, ih]

theorem set_get_self {f : Frontmatter} {key : Text} {value : Value} (hkeys : (f.map (·.1)).Nodup)
    (h : f.get key = some value) : f.set key value = f := by
  obtain ⟨e, he, rfl⟩ := Option.map_eq_some_iff.1 h
  have hkey := List.find?_some he
  rw [decide_eq_true_eq] at hkey
  have hmem := List.mem_of_find?_eq_some he
  unfold Frontmatter.set
  rw [if_pos (List.any_eq_true.2 ⟨e, hmem, by simpa using hkey⟩)]
  refine (List.map_congr_left fun d hd => ?_).trans (List.map_id f)
  split
  next hd' =>
    have heq : d = e := by
      refine List.inj_on_of_nodup_map hkeys hd hmem ?_
      rw [hd', hkey]
    rw [heq, ← hkey]
    rfl
  next => rfl

theorem mapLast_mapLast (f : Frontmatter) : (f.mapLast tail).mapLast tail = f.mapLast fun v => tail (tail v) := by
  induction f using Frontmatter.mapLast.induct with
  | case1 => rfl
  | case2 e => rfl
  | case3 e e' rest ih =>
    have hne : Frontmatter.mapLast tail (e' :: rest) ≠ [] := by
      cases rest <;> exact List.cons_ne_nil _ _
    obtain ⟨d, ds, hd⟩ := List.exists_cons_of_ne_nil hne
    rw [Frontmatter.mapLast, Frontmatter.mapLast, ← ih, hd, Frontmatter.mapLast]

/-- The last value survives being printed and read back twice, or belongs to the facts. -/
def LastSafe (tail : Value → Value) (f : Frontmatter) : Prop :=
  ∀ e ∈ f.getLast?, e.1 = memoryFactsKey ∨ tail (tail e.2) = e.2

/-- **Printed and read back twice**, the other keys keep their values if and only if the last one is safe. -/
theorem get_mapLast_twice_iff {f : Frontmatter} (hkeys : (f.map (·.1)).Nodup) :
    (∀ key, key ≠ memoryFactsKey → ((f.mapLast tail).mapLast tail).get key = f.get key) ↔ LastSafe tail f := by
  rw [mapLast_mapLast]
  constructor
  · intro h e he
    by_cases hfacts : e.1 = memoryFactsKey
    · exact Or.inl hfacts
    · obtain ⟨hget, hmapped⟩ := get_mapLast_last (fun v => tail (tail v)) hkeys he
      have heq := h e.1 hfacts
      rw [hget, hmapped] at heq
      exact Or.inr (Option.some.inj heq)
  · intro h key hkey
    by_cases hlast : ∀ e ∈ f.getLast?, e.1 ≠ key
    · exact Frontmatter.get_mapLast hlast
    · simp only [not_forall, not_not] at hlast
      obtain ⟨e, he, rfl⟩ := hlast
      have hself : f.mapLast (fun v => tail (tail v)) = f := Frontmatter.mapLast_eq_self fun d hd => by
        rw [← Option.some.inj (he.symm.trans hd)]
        exact (h e he).resolve_left hkey
      rw [hself]

theorem getLast?_erase {f : Frontmatter} {key : Text} {e : Text × Value} (h : f.getLast? = some e) (hkey : e.1 ≠ key) :
    (f.erase key).getLast? = some e := by
  obtain ⟨front, rfl⟩ := List.getLast?_eq_some_iff.1 h
  unfold Frontmatter.erase
  rw [List.filter_append, List.filter_cons_of_pos (by simpa using hkey), List.filter_nil, List.getLast?_concat]

/-- **Where the facts go**: behind everything else, unless there are none or the field is not a list. -/
theorem withFacts_cases (f : Frontmatter) (prior : Option Value) (additions : List MemoryFact) :
    (∃ v, withFacts f prior additions = f.erase memoryFactsKey ++ [(memoryFactsKey, v)]) ∨
      (Vacant prior ∧ additions = [] ∧ withFacts f prior additions = f.erase memoryFactsKey) ∨
      (∃ other, prior = some other ∧ (∀ items, other ≠ .list items) ∧ withFacts f prior additions = f.set memoryFactsKey other) := by
  unfold withFacts
  split
  next =>
    split
    next h => exact Or.inr (Or.inl ⟨trivial, h, rfl⟩)
    next => exact Or.inl ⟨_, set_erase f _ _⟩
  next =>
    split
    next h => exact Or.inr (Or.inl ⟨trivial, h, rfl⟩)
    next => exact Or.inl ⟨_, set_erase f _ _⟩
  next => exact Or.inl ⟨_, set_erase f _ _⟩
  next other hnil hlist => exact Or.inr (Or.inr ⟨other, rfl, hlist, rfl⟩)

theorem get_withFacts {f : Frontmatter} (hkeys : (f.map (·.1)).Nodup) {prior : Option Value} {additions : List MemoryFact}
    (hprior : prior = f.get memoryFactsKey) {key : Text} (hkey : key ≠ memoryFactsKey) :
    (withFacts f prior additions).get key = f.get key := by
  rcases withFacts_cases f prior additions with ⟨v, heq⟩ | ⟨-, -, heq⟩ | ⟨other, hother, -, heq⟩
  · rw [heq, get_append_other hkey, get_erase hkey]
  · rw [heq, get_erase hkey]
  · rw [heq, set_get_self hkeys (hprior ▸ hother)]

theorem priorFacts_eq {f : Frontmatter} (h : prepared.input.frontmatter lib = some f) :
    priorFacts lib prepared.input.raw = f.get memoryFactsKey := by
  obtain ⟨note, hnote, hf⟩ := Option.bind_eq_some_iff.1 h
  obtain ⟨raw, hraw, rfl⟩ := Option.map_eq_some_iff.1 hnote
  have hne : raw ≠ [] := by
    rintro rfl
    cases hf
  unfold priorFacts
  rw [hraw, Option.filter_some, if_pos (by simpa using hne), Option.bind_some, hf, Option.bind_some]

theorem frontmatter_keys (laws : lib.yaml.Lawful tail) {f : Frontmatter} (h : prepared.input.frontmatter lib = some f) :
    (f.map (·.1)).Nodup := by
  obtain ⟨note, hnote, hf⟩ := Option.bind_eq_some_iff.1 h
  obtain ⟨raw, hraw, rfl⟩ := Option.map_eq_some_iff.1 hnote
  obtain ⟨before, behind, -, -, hparse⟩ := split_of_parseNote hf
  exact laws.keys _ _ hparse

/-! ## Which proposals are recorded -/

theorem expandOperation_mem {operation : ReconciliationOperation} {item : ReconciliationOperation × Option String}
    (h : item ∈ expandOperation prepared operation) :
    item.1.kind = operation.kind ∧ item.1.factKey = operation.factKey := by
  unfold expandOperation at h
  split at h
  next =>
    rw [List.mem_singleton.1 h]
    exact ⟨rfl, rfl⟩
  next =>
    simp only [] at h
    split at h
    next =>
      rw [List.mem_singleton.1 h]
      exact ⟨rfl, rfl⟩
    next =>
      obtain ⟨c, -, rfl⟩ := List.mem_map.1 h
      exact ⟨rfl, rfl⟩

theorem writeChange_proposal {operation : ReconciliationOperation} {sources : List ReconciliationSource}
    {ideaIds : List Text} {id : Text} {q : FactProposal} {support : List Text} {addition : Text}
    (h : writeChange lib prepared operation sources ideaIds id = .ok (.write (some q) support addition)) :
    ∃ key, given (factKeyOf lib prepared operation ideaIds) = some key ∧
      q = proposalOf lib prepared operation sources ideaIds key ∧ q.statement ∈ support ∧
      (operation.kind = .supersede → directionVerified lib prepared q (operation.correctionQuote.getD []) = true) := by
  unfold writeChange at h
  simp only [] at h
  split at h
  next => cases h
  next =>
    split at h
    next => cases h
    next hdirection =>
      have hwrite := Except.ok.inj h
      obtain ⟨hproposal, hsupport, -⟩ := Change.write.inj hwrite
      obtain ⟨key, hkey, rfl⟩ := Option.map_eq_some_iff.1 hproposal
      refine ⟨key, hkey, rfl, ?_, fun hkind => ?_⟩
      · rw [← hsupport, hproposal]
        simp only [List.cons_append, List.nil_append]
        exact List.mem_cons_self
      · rw [hproposal, Option.any_some, not_and, Bool.not_eq_false] at hdirection
        exact hdirection hkind

/-- A correction is accepted when a trial records it. -/
theorem directionVerified_recorded (laws : lib.yaml.Lawful tail) {f : Frontmatter}
    (hsome : prepared.input.frontmatter lib = some f) {q : FactProposal} {correction : Text}
    (h : directionVerified lib prepared q correction = true) :
    parseMemoryFacts lib (((withFacts f (priorFacts lib prepared.input.raw) (newFacts lib prepared.input.raw [q]
      prepared.input.evidence (q.statement ++ "\n\n".toList ++ correction))).mapLast tail).get memoryFactsKey) ≠ [] := by
  have hseed : (parseNote lib.yaml (prepared.input.raw.getD [])).frontmatter = some f := by
    obtain ⟨note, hnote, hf⟩ := Option.bind_eq_some_iff.1 hsome
    obtain ⟨raw, hraw, rfl⟩ := Option.map_eq_some_iff.1 hnote
    rw [hraw]
    exact hf
  unfold directionVerified at h
  simp only [hsome, Option.isSome_some, if_true] at h
  rw [appendMemoryFacts_frontmatter laws hseed (frontmatter_keys laws hsome), Option.bind_some] at h
  intro hnil
  rw [hnil] at h
  cases h

theorem withFacts_vacant {prior : Option Value} (h : Vacant prior) (f : Frontmatter) :
    withFacts f prior [] = f.erase memoryFactsKey := by
  cases prior with
  | none => rfl
  | some v =>
    cases v with
    | list values =>
      cases values with
      | nil => rfl
      | cons v values => cases h
    | _ => cases h

theorem withFacts_other {other : Value} (hlist : ∀ values, other ≠ .list values) (f : Frontmatter)
    (additions : List MemoryFact) : withFacts f (some other) additions = f.set memoryFactsKey other := by
  cases other with
  | list values => exact absurd rfl (hlist values)
  | _ => rfl

theorem correction_recorded (laws : lib.yaml.Lawful tail) {f : Frontmatter} (hsome : prepared.input.frontmatter lib = some f)
    (hvacant : Vacant (f.get memoryFactsKey)) {q : FactProposal} {correction : Text}
    (h : directionVerified lib prepared q correction = true) :
    (factOf lib [] [] prepared.input.evidence (q.statement ++ "\n\n".toList ++ correction) q).isSome := by
  have hprior : Vacant (priorFacts lib prepared.input.raw) := by
    rw [priorFacts_eq hsome]
    exact hvacant
  have htrial := directionVerified_recorded laws hsome h
  rw [newFacts_of_vacant hprior, addFacts_singleton] at htrial
  cases hfact : factOf lib [] [] prepared.input.evidence (q.statement ++ "\n\n".toList ++ correction) q with
  | some fact => rfl
  | none =>
    refine absurd ?_ htrial
    rw [hfact, Option.toList_none, withFacts_vacant hprior, get_eq_none_iff.2]
    · rfl
    · rw [Frontmatter.mapLast_keys]
      exact get_eq_none_iff.1 (get_erase_self f memoryFactsKey)

/-- **With no facts before it, a proposal is recorded**, if the operation's own key, where it counts, is of use. -/
theorem proposal_recorded (laws : lib.yaml.Lawful tail) {f : Frontmatter} (hsome : prepared.input.frontmatter lib = some f)
    (hvacant : Vacant (f.get memoryFactsKey))
    (hstatements : ∀ s ∈ prepared.request.statements, ∀ key ∈ s.factKey, ∃ fact ∈ prepared.input.memoryFacts lib, fact.key = key)
    (hitems : ∀ item ∈ items, item.1.kind = .add ∨ item.1.kind = .conflict → ∀ key ∈ given item.1.factKey, Recordable key)
    {q : FactProposal} {support : List Text} {addition : Text}
    (h : Written lib prepared items (some q) support addition) :
    Recordable q.key ∧ trim q.statement ≠ [] ∧ utf16Length q.statement ≤ 1600 ∧ q.statement ∈ support := by
  obtain ⟨item, hitem, operation, sources, ideaIds, value, hresolved, hfailure, hlink, hclarify, -, hwrite⟩ := h
  obtain ⟨key, hkey, rfl, hsupport, hdirection⟩ := writeChange_proposal hwrite
  have hnone : prepared.input.memoryFacts lib = [] := by
    rw [PrepareInput.memoryFacts, hsome, Option.bind_some]
    cases hf : f.get memoryFactsKey with
    | none => rfl
    | some v =>
      rw [hf] at hvacant
      cases v with
      | list values =>
        cases values with
        | nil => rfl
        | cons v values => cases hvacant
      | _ => cases hvacant
  have hknown : knownKey prepared operation = none := by
    cases hk : knownKey prepared operation with
    | none => rfl
    | some key =>
      obtain ⟨s, hs, hkey⟩ := Option.bind_eq_some_iff.1 hk
      obtain ⟨id, -, hfind⟩ := Option.bind_eq_some_iff.1 hs
      obtain ⟨fact, hfact, -⟩ := hstatements s (List.mem_of_find?_eq_some hfind) key hkey
      rw [hnone] at hfact
      cases hfact
  have hbound : utf16Length (statementOf operation) ≤ 1600 := by
    unfold targetFailure at hfailure
    simp only [] at hfailure
    split at hfailure
    next => cases hfailure
    next hle => exact Nat.le_of_not_lt hle
  have hquote : operation.kind ≠ .supersede → trim (statementOf operation) ≠ [] := by
    intro hkind
    rw [statementOf, if_neg hkind]
    exact canonicalSourceQuote_trim hresolved.sourceQuote.2
  have hown : operation.kind = .add ∨ operation.kind = .conflict → ∀ key ∈ given operation.factKey, Recordable key := by
    rw [hresolved.kind, hresolved.factKey]
    exact hitems item hitem
  refine and_assoc.1 (and_assoc.1 ⟨⟨?_, hbound⟩, hsupport⟩)
  show Recordable key ∧ trim (statementOf operation) ≠ []
  cases hkind : operation.kind with
  | linkSource => exact absurd hkind hlink
  | clarify => exact absurd hkind hclarify
  | add =>
    have hkeyof : factKeyOf lib prepared operation ideaIds = operation.factKey := by
      rw [factKeyOf, hkind]
      rfl
    rw [hkeyof] at hkey
    exact ⟨hown (Or.inl hkind) key hkey, hquote (by rw [hkind]; exact OperationKind.noConfusion)⟩
  | conflict =>
    refine ⟨?_, hquote (by rw [hkind]; exact OperationKind.noConfusion)⟩
    unfold factKeyOf at hkey
    rw [hkind, hknown] at hkey
    simp only [or_true, if_true, Option.none_or] at hkey
    cases htarget : targetOf prepared operation with
    | none =>
      rw [htarget] at hkey
      rw [← Option.some.inj (given_eq_some.1 hkey).1]
      exact recordable_digest rfl (by decide) (by decide) _
    | some target =>
      rw [htarget] at hkey
      simp only [] at hkey
      cases hfactKey : operation.factKey with
      | none =>
        rw [hfactKey] at hkey
        rw [← Option.some.inj (given_eq_some.1 hkey).1]
        exact recordable_digest rfl (by decide) (by decide) _
      | some own =>
        rw [hfactKey] at hkey
        refine hown (Or.inr hkind) key ?_
        rw [hfactKey]
        exact hkey
  | supersede =>
    -- The trial that verified the correction recorded the fact, so its key and statement are of use.
    obtain ⟨hkeyok, hstatement, -⟩ := factOf_isSome.1 (correction_recorded laws hsome hvacant (hdirection hkind))
    exact ⟨hkeyok, hstatement⟩

/-- **With a field that holds something else, only reports of a conflict and additions with a key propose facts.** -/
theorem no_proposal (laws : lib.yaml.Lawful tail) {f : Frontmatter} (hsome : prepared.input.frontmatter lib = some f)
    {other : Value} (hother : f.get memoryFactsKey = some other) (hlist : ∀ values, other ≠ .list values)
    (hlast : ∀ e ∈ f.getLast?, e.1 ≠ memoryFactsKey)
    (hitems : ∀ item ∈ items, item.1.kind ≠ .conflict ∧ (item.1.kind = .add → given item.1.factKey = none))
    {q : FactProposal} {support : List Text} {addition : Text} :
    ¬Written lib prepared items (some q) support addition := by
  rintro ⟨item, hitem, operation, sources, ideaIds, value, hresolved, hfailure, hlink, hclarify, -, hwrite⟩
  obtain ⟨key, hkey, -, -, hdirection⟩ := writeChange_proposal hwrite
  obtain ⟨hconflict, hadd⟩ := hitems item hitem
  rw [← hresolved.kind] at hconflict hadd
  rw [← hresolved.factKey] at hadd
  cases hkind : operation.kind with
  | linkSource => exact hlink hkind
  | clarify => exact hclarify hkind
  | conflict => exact hconflict hkind
  | add =>
    rw [factKeyOf, hkind] at hkey
    simp only [reduceCtorEq, or_self, if_false] at hkey
    rw [hadd hkind] at hkey
    cases hkey
  | supersede =>
    have htrial := directionVerified_recorded laws hsome (hdirection hkind)
    rw [priorFacts_eq hsome, hother] at htrial
    rw [withFacts_other hlist, set_get_self (frontmatter_keys laws hsome) hother, Frontmatter.get_mapLast hlast,
      hother] at htrial
    refine htrial ?_
    cases other with
    | list values => exact absurd rfl (hlist values)
    | _ => rfl

/-! ## What is preserved -/

/-- The last key's value survives being printed without the white space at its end, or it does not come to that: a
record of facts comes behind it. -/
def Survives (tail : Value → Value) (f : Frontmatter) (operations : List ReconciliationOperation) : Prop :=
  (∀ e ∈ (f.erase memoryFactsKey).getLast?, tail (tail e.2) = e.2) ∨
  match f.get memoryFactsKey with
  | some (.list (_ :: _)) => True
  | none | some (.list []) => ∀ operation ∈ operations, operation.kind = .add ∨ operation.kind = .conflict →
      ∀ key ∈ given operation.factKey, Recordable key
  | some _ => (∃ e ∈ f.getLast?, e.1 = memoryFactsKey) ∨
      ∀ operation ∈ operations, operation.kind ≠ .conflict ∧ (operation.kind = .add → given operation.factKey = none)

theorem lastSafe_withFacts (laws : lib.yaml.Lawful tail) {input : PrepareInput}
    (hprepared : prepareReconciliation lib input = some prepared) {f : Frontmatter}
    (hsome : input.frontmatter lib = some f) {operations : List ReconciliationOperation}
    (hsurvives : Survives tail f operations)
    (hp : Buffered lib prepared (operations.flatMap (expandOperation prepared)) p) (hproposals : p.proposals ≠ []) :
    LastSafe tail (withFacts f (priorFacts lib prepared.input.raw) (newFacts lib prepared.input.raw p.proposals
      prepared.input.evidence (("\n\n".toList).intercalate p.support))) := by
  obtain rfl := prepared_input hprepared
  have hkeys := frontmatter_keys laws hsome
  have hprior := priorFacts_eq hsome
  obtain ⟨q, rest, hq⟩ := List.exists_cons_of_ne_nil hproposals
  obtain ⟨support, addition, hwritten, hsub⟩ := hp.proposals q (by rw [hq]; exact List.mem_cons_self)
  have hitem : ∀ item ∈ operations.flatMap (expandOperation prepared), ∃ operation ∈ operations,
      item.1.kind = operation.kind ∧ item.1.factKey = operation.factKey := by
    intro item hitem
    obtain ⟨operation, hoperation, hitem⟩ := List.mem_flatMap.1 hitem
    exact ⟨operation, hoperation, expandOperation_mem hitem⟩
  have hbehind : ∀ {v : Value}, LastSafe tail (f.erase memoryFactsKey ++ [(memoryFactsKey, v)]) := by
    intro v e he
    rw [List.getLast?_concat] at he
    exact Or.inl (by rw [← Option.some.inj he])
  rcases withFacts_cases f (priorFacts lib prepared.input.raw) (newFacts lib prepared.input.raw p.proposals
    prepared.input.evidence (("\n\n".toList).intercalate p.support)) with ⟨v, heq⟩ | ⟨hvacant, hnew, heq⟩ | ⟨other, hother, hlist, heq⟩
  · rw [heq]
    exact hbehind
  · rw [heq]
    rcases hsurvives with hlast | hsurvives
    · exact fun e he => Or.inr (hlast e he)
    · -- Nothing is there to keep, and the proposal is recorded after all.
      exfalso
      rw [hprior] at hvacant
      have hown : ∀ item ∈ operations.flatMap (expandOperation prepared), item.1.kind = .add ∨ item.1.kind = .conflict →
          ∀ key ∈ given item.1.factKey, Recordable key := by
        intro item hi
        obtain ⟨operation, hoperation, hkind, hfactKey⟩ := hitem item hi
        rw [hkind, hfactKey]
        cases hf : f.get memoryFactsKey with
        | none =>
          rw [hf] at hsurvives
          exact hsurvives operation hoperation
        | some v =>
          rw [hf] at hsurvives hvacant
          cases v with
          | list values =>
            cases values with
            | nil => exact hsurvives operation hoperation
            | cons v values => cases hvacant
          | _ => cases hvacant
      obtain ⟨hkey, hstatement, hbound, hmem⟩ :=
        proposal_recorded laws hsome hvacant (statements_factKey hprepared) hown hwritten
      rw [newFacts_of_vacant (by rw [hprior]; exact hvacant), hq] at hnew
      exact addFacts_ne_nil (factOf_isSome.2 ⟨hkey, hstatement, hbound, includes_iff.2 (infix_intercalate (hsub hmem))⟩) hnew
  · rw [heq]
    rw [hprior] at hother
    rw [set_get_self hkeys hother]
    intro e he
    by_cases hfacts : e.1 = memoryFactsKey
    · exact Or.inl hfacts
    · right
      rcases hsurvives with hlast | hsurvives
      · exact hlast e (getLast?_erase he hfacts)
      · exfalso
        have hend : ∀ e ∈ f.getLast?, e.1 ≠ memoryFactsKey := by
          intro e' he'
          rw [← Option.some.inj (he.symm.trans he')]
          exact hfacts
        rw [hother] at hsurvives
        have hsurvives : (∃ e ∈ f.getLast?, e.1 = memoryFactsKey) ∨
            ∀ operation ∈ operations, operation.kind ≠ .conflict ∧ (operation.kind = .add → given operation.factKey = none) := by
          cases other with
          | list values => exact absurd rfl (hlist values)
          | _ => exact hsurvives
        rcases hsurvives with ⟨e', he', hkey⟩ | hsurvives
        · exact hend e' he' hkey
        · refine no_proposal laws hsome hother hlist hend (fun item hi => ?_) hwritten
          obtain ⟨operation, hoperation, hkind, hfactKey⟩ := hitem item hi
          rw [hkind, hfactKey]
          exact hsurvives operation hoperation

/-- What is in a page stays: the body is found again in the new one, each line at the start of a line and in order, and
the frontmatter's keys other than `memoryFacts` keep their values. -/
structure Preserves (lib : Library) (input : PrepareInput) (content : Text) : Prop where
  body : (input.body lib).Sublist (parseNote lib.yaml content).body
  lines : List.SublistForall₂ (· <+: ·) (lines (input.body lib)) (lines (parseNote lib.yaml content).body)
  keys : ∀ f, input.frontmatter lib = some f → ∃ g, (parseNote lib.yaml content).frontmatter = some g ∧
    ∀ key, key ≠ memoryFactsKey → g.get key = f.get key

/-- **Once facts are proposed**, the frontmatter keeps its values exactly when the last of those printed is safe. -/
theorem recorded_get_iff (laws : lib.yaml.Lawful tail) {f : Frontmatter} (hsome : prepared.input.frontmatter lib = some f) :
    (∀ key, key ≠ memoryFactsKey → ((recorded lib tail prepared p f).mapLast tail).get key = f.get key) ↔
      LastSafe tail (withFacts f (priorFacts lib prepared.input.raw) (newFacts lib prepared.input.raw p.proposals
        prepared.input.evidence (("\n\n".toList).intercalate p.support))) := by
  have hkeys := frontmatter_keys laws hsome
  rw [← get_mapLast_twice_iff (withFacts_keys hkeys _ _), recorded]
  refine forall_congr' fun key => forall_congr' fun hkey => ?_
  rw [get_withFacts hkeys (priorFacts_eq hsome) hkey]

theorem preserves_original (lib : Library) (input : PrepareInput) : Preserves lib input (input.raw.getD []) := by
  have hrefl : ∀ ls : List Text, List.SublistForall₂ (· <+: ·) ls ls := by
    intro ls
    induction ls with
    | nil => exact List.SublistForall₂.nil
    | cons l ls ih => exact List.SublistForall₂.cons List.prefix_rfl ih
  have hbody : (parseNote lib.yaml (input.raw.getD [])).body = input.body lib := by
    unfold PrepareInput.body PrepareInput.parsed
    cases input.raw with
    | none => rfl
    | some raw => rfl
  have hkeys : ∀ f, input.frontmatter lib = some f → (parseNote lib.yaml (input.raw.getD [])).frontmatter = some f := by
    intro f hf
    obtain ⟨note, hnote, hf⟩ := Option.bind_eq_some_iff.1 hf
    obtain ⟨raw, hraw, rfl⟩ := Option.map_eq_some_iff.1 hnote
    rw [hraw]
    exact hf
  constructor
  · rw [hbody]
  · rw [hbody]
    exact hrefl _
  · exact fun f hf => ⟨f, hkeys f hf, fun _ _ => rfl⟩

/-- **A rendered page preserves the body**, whatever becomes of the frontmatter. -/
theorem render_body (laws : lib.yaml.Lawful tail) (hp : Buffered lib prepared items p)
    (htargets : ∀ e ∈ prepared.targets, e.2.Whole (prepared.input.body lib)) (hsome : p.edits ≠ [] ∨ p.additions ≠ []) :
    (prepared.input.body lib).Sublist (parseNote lib.yaml (render lib prepared p)).body ∧
      List.SublistForall₂ (· <+: ·) (lines (prepared.input.body lib))
        (lines (parseNote lib.yaml (render lib prepared p)).body) := by
  have hgrown := hp.grown htargets
  cases hf : prepared.input.frontmatter lib with
  | none =>
    rw [render_of_none laws hf]
    refine ⟨hgrown.sublist.cons _, ?_⟩
    rw [lines_cons, if_pos rfl]
    exact hgrown.lines.cons_right
  | some f =>
    obtain ⟨-, hbody | ⟨hnil, -⟩⟩ := render_of_some laws hf fun hnil => hp.text_of_nil htargets hnil hsome
    · rw [hbody]
      exact ⟨hgrown.sublist, hgrown.lines⟩
    · rw [hnil]
      obtain ⟨l, ls, hls⟩ := List.exists_cons_of_ne_nil (lines_ne_nil (parseNote lib.yaml (render lib prepared p)).body)
      rw [hls]
      exact ⟨List.nil_sublist _, List.SublistForall₂.cons List.nil_prefix List.SublistForall₂.nil⟩

/-- The pages, and the identity and the decision of the operation, with their hashes. -/
def hashes : List (Text × Text) :=
  [("---\nnote: |+\n  x\n\n---\nHello\n".toList,
      "4ade47aa241d8550ae56ace9e4fac7e0b666b975c2422de5b54881df420c8df2".toList),
    ("---\ntitle: A\n---\nHello\n".toList, "222876f1380ac0e22710a183d3dcc67cf4393a0ed10157ac19dea483509b0f8a".toList),
    ("[\"Log/2026-01-02.md#^e-0a1b2c\",[\"i1\"],[\"c1\"],\"add\",null,\"The sky is blue.\",null,null]".toList,
      "4ad82a027267ca089bedddd38c18e647dc8af04da5a3da8e6a1aa051f433f64a".toList),
    ("\x7b\"kind\":\"add\",\"targetId\":null,\"statement\":\"The sky is blue.\",\"replacement\":null,\"correction\":null\x7d".toList,
      "7fbfcc0b4d7919f398e6ffc957fff5b6ed042133e67a9fed93bed81ef09b72aa".toList)]

noncomputable def modelLibrary : Library where
  yaml := modelYaml
  unicode := .ascii
  toLowerCase t := t.map Char.toLower
  sha256 t := ((hashes.find? (·.1 = t)).map (·.2)).getD []
  isDate _ := true

def blueSky : MemoryEntry where
  evidenceRef := "Log/2026-01-02.md#^e-0a1b2c".toList
  path := "Log/2026-01-02.md".toList
  anchor := "e-0a1b2c".toList
  title := "Sky".toList
  content := "The sky is blue.".toList
  source := .telegram
  verbatim := true
  contentType := none
  capturedAt := "2026-01-02T10:00:00.000Z".toList
  sourceId := none

/-- One idea with one candidate, for a page. -/
def skyInput (raw : Text) : PrepareInput where
  path := "Notes/Sky.md".toList
  raw := some raw
  title := "Sky".toList
  type := "note".toList
  today := "2026-01-02".toList
  ideas := some [{ id := "i1".toList, topic := "sky".toList, sourceIds := ["s1".toList] }]
  addCandidates := some
    [{ id := "c1".toList, start := 0, stop := 16, text := "The sky is blue.".toList, ideaIds := ["i1".toList] }]
  evidence := blueSky
  sources := [{ id := "s1".toList, start := 0, stop := 16, text := "The sky is blue.".toList }]
  context := { branches := [], isPartial := false }
  links := []

theorem skyInput_sections (raw : Text) : (skyInput raw).SectionsExact modelLibrary := by
  intro branch hbranch
  cases hbranch

/-- The candidate is added, as a fact under a key. -/
def addSky (factKey : Option Text) : ReconciliationOperation where
  kind := .add
  ideaIds := some ["i1".toList]
  sourceIds := ["c1".toList]
  sourceQuote := []
  targetId := none
  factKey := factKey
  correctionQuote := none

def titledPage : Text := "---\ntitle: A\n---\nHello\n".toList

/-- A value that ends in an empty line, and no facts. -/
def notedPage : Text := "---\nnote: |+\n  x\n\n---\nHello\n".toList

end Zenod.Engine
