/-
A call of `appendMemoryFacts` only adds (`engine/temporalFacts.ts`): the
records that were there, and a value that is no list, stay as they are, and
the body grows at its end. Each record it adds comes from a proposal, has an id
of its own and supersedes all that it asks for or nothing.

`appendMemoryFacts_appends`: of the text a call writes and of what is read back.
-/
import Zenod.Engine.Preserve
import Zenod.Engine.Supersession

namespace Zenod.Engine

open Text Vault
open Evidence (MemoryEntry)

variable {lib : Library} {prior additions : List MemoryFact} {evidence : MemoryEntry} {assigned : Text} {p : FactProposal}
  {r : MemoryFact}

/-! ## What a correction asks for -/

/-- A record before the correction that it asks to supersede: by id, where it has ids, and else by statement. -/
def Asked (prior : List MemoryFact) (key : Text) (origin : Origin) (requested targeted : List Text) (target : MemoryFact) :
    Prop :=
  target ∈ prior ∧ target.key = key ∧ target.origin = origin ∧
    if targeted = [] then target.statement ∈ requested else target.id ∈ targeted

/-- The edges of a correction that leaves out nothing it asks for. -/
structure Complete (prior : List MemoryFact) (key : Text) (origin : Origin) (requested targeted edges : List Text) :
    Prop where
  exact : ∀ id, id ∈ edges ↔ ∃ target, Asked prior key origin requested targeted target ∧ target.id = id
  ids : ∀ id ∈ targeted, ∃ target, Asked prior key origin requested targeted target ∧ target.id = id
  quotes : targeted = [] → ∀ quote ∈ requested, ∃ target, Asked prior key origin requested targeted target ∧
    target.statement = quote

section Edges

variable {key : Text} {origin : Origin} {requested targeted : List Text}

/-- The records with the ids asked for, as many as there are ids. -/
theorem Complete.of_ids (hids : (prior.map (·.id)).Nodup) (htargeted : targeted ≠ [])
    (hlength : (prior.filter fun fact => targeted.contains fact.id && fact.key == key && fact.origin = origin).length =
      targeted.eraseDups.length) :
    Complete prior key origin requested targeted
      ((prior.filter fun fact => targeted.contains fact.id && fact.key == key && fact.origin = origin).map (·.id)) := by
  have hfound : ∀ target, target ∈ (prior.filter fun fact => targeted.contains fact.id && fact.key == key &&
      fact.origin = origin) ↔ Asked prior key origin requested targeted target := by
    intro target
    rw [List.mem_filter, Asked, if_neg htargeted]
    simp only [Bool.and_eq_true, List.contains_iff_mem, beq_iff_eq, decide_eq_true_eq]
    tauto
  have hnodup : ((prior.filter fun fact => targeted.contains fact.id && fact.key == key && fact.origin = origin).map
      (·.id)).Nodup := hids.sublist (List.filter_sublist.map _)
  generalize prior.filter (fun fact => targeted.contains fact.id && fact.key == key && fact.origin = origin) = found at *
  have hexact : ∀ id, id ∈ found.map (·.id) ↔
      ∃ target, Asked prior key origin requested targeted target ∧ target.id = id := by
    intro id
    simp only [List.mem_map, hfound]
  have hsubset : found.map (·.id) ⊆ targeted.eraseDups := by
    intro id hid
    obtain ⟨target, htarget, rfl⟩ := List.mem_map.1 hid
    have hasked := ((hfound target).1 htarget).2.2.2
    rw [if_neg htargeted] at hasked
    exact List.mem_eraseDups.2 hasked
  -- As many different ids, all of them asked for: these are all the ids asked for.
  have hperm : (found.map (·.id)).Perm targeted.eraseDups := by
    refine (List.subperm_of_subset hnodup hsubset).perm_of_length_le ?_
    rw [List.length_map, hlength]
  refine ⟨hexact, fun id hid => (hexact id).1 ?_, fun hnil => absurd hnil htargeted⟩
  exact hperm.mem_iff.2 (List.mem_eraseDups.2 hid)

/-- An edge for each statement asked for, to the one record that says it. -/
theorem Complete.of_quotes (edge : Text → Option Text) (hall : ∀ quote ∈ requested, (edge quote).isSome)
    (hedge : ∀ quote id, edge quote = some id → ∃ target, target.id = id ∧
      (prior.filter fun fact => fact.key == key && fact.statement == quote && fact.origin = origin) = [target]) :
    Complete prior key origin requested [] ((requested.map edge).filterMap id) := by
  have hasked : ∀ quote ∈ requested, ∃ target, Asked prior key origin requested [] target ∧ target.statement = quote ∧
      edge quote = some target.id ∧ ∀ other, Asked prior key origin requested [] other → other.statement = quote →
        other = target := by
    intro quote hquote
    obtain ⟨id, hid⟩ := Option.isSome_iff_exists.1 (hall quote hquote)
    obtain ⟨target, rfl, hfilter⟩ := hedge quote id hid
    have hmem : ∀ other, other ∈ prior ∧ other.key = key ∧ other.statement = quote ∧ other.origin = origin ↔
        other = target := by
      intro other
      rw [← @List.mem_singleton _ other target, ← hfilter, List.mem_filter]
      simp only [Bool.and_eq_true, beq_iff_eq, decide_eq_true_eq, and_assoc]
    obtain ⟨htarget, hkey, hstatement, horigin⟩ := (hmem target).2 rfl
    refine ⟨target, ⟨htarget, hkey, horigin, ?_⟩, hstatement, hid, ?_⟩
    · rw [if_pos rfl, hstatement]
      exact hquote
    · intro other hother hsays
      exact (hmem other).1 ⟨hother.1, hother.2.1, hsays, hother.2.2.1⟩
  refine ⟨fun id => ?_, fun id hid => absurd hid List.not_mem_nil, fun _ quote hquote => ?_⟩
  · rw [List.mem_filterMap]
    constructor
    · rintro ⟨e, he, hid⟩
      obtain ⟨quote, hquote, rfl⟩ := List.mem_map.1 he
      obtain ⟨target, htarget, -, hedge', -⟩ := hasked quote hquote
      refine ⟨target, htarget, ?_⟩
      rw [hedge'] at hid
      exact Option.some.inj hid
    · rintro ⟨target, htarget, rfl⟩
      have hquote : target.statement ∈ requested := by
        have hquote := htarget.2.2.2
        rwa [if_pos rfl] at hquote
      obtain ⟨found, -, -, hedge', hunique⟩ := hasked _ hquote
      rw [hunique target htarget rfl]
      exact ⟨some found.id, List.mem_map.2 ⟨_, hquote, hedge'⟩, rfl⟩
  · obtain ⟨target, htarget, hstatement, -⟩ := hasked quote hquote
    exact ⟨target, htarget, hstatement⟩

theorem correctionEdges_complete (hids : (prior.map (·.id)).Nodup) (effectiveDate correctionQuote : Option Text) :
    (correctionEdges lib prior p key origin effectiveDate correctionQuote requested targeted).1 = [] ∨
      Complete prior key origin requested targeted
        (correctionEdges lib prior p key origin effectiveDate correctionQuote requested targeted).1 := by
  unfold correctionEdges
  simp only []
  split
  next => exact Or.inl rfl
  next quote =>
    split
    next => exact Or.inl rfl
    next =>
      split
      next htargeted =>
        split
        next => exact Or.inl rfl
        next hresolved =>
          rw [not_or, not_not] at hresolved
          exact Or.inr (Complete.of_ids hids htargeted hresolved.1)
      next htargeted =>
        split
        next => exact Or.inl rfl
        next =>
          split
          next hall =>
            obtain rfl : targeted = [] := not_not.1 htargeted
            refine Or.inr (Complete.of_quotes _ (fun old hold => ?_) fun old id hid => ?_)
            · rw [List.all_map, List.all_eq_true] at hall
              exact hall old hold
            · split at hid
              next target htarget =>
                split at hid
                next => exact ⟨target, Option.some.inj hid, htarget⟩
                next => cases hid
              next => cases hid
          next => exact Or.inl rfl

end Edges

/-! ## A record and its proposal -/

/-- What a record takes from its proposal and from the evidence. -/
structure RecordOf (lib : Library) (evidence : MemoryEntry) (p : FactProposal) (r : MemoryFact) : Prop where
  key : r.key = lib.toLowerCase (trim p.key)
  named : trim p.key ≠ []
  statement : r.statement = p.statement
  said : trim p.statement ≠ [] ∧ utf16Length p.statement ≤ 1600
  rendered : r.renderedStatement = p.renderedStatement.filter (· ≠ [])
  legacy : r.legacySupersedes = p.legacySupersedes
  evidenceRef : r.evidenceRef = evidence.evidenceRef
  id : r.id = factId lib r.evidenceRef r.key r.statement
  effective : r.effectiveDate.all (validFactDate ·) = true
  quotes : r.supersedesQuotes = (p.supersedesQuotes.filter (· ≠ [])).take 24
  ids : r.supersedesIds.getD [] = (p.supersedesIds.getD []).take 24

/-- The limits of the reader, where the writer does not check them. -/
structure Readable (lib : Library) (evidence : MemoryEntry) (p : FactProposal) : Prop where
  key : utf16Length (lib.toLowerCase (trim p.key)) ≤ 160
  evidenceRef : isEvidenceRef evidence.evidenceRef = true
  rendered : p.renderedStatement.all (utf16Length · ≤ 800) = true
  legacy : p.legacySupersedes.all (·.isValid) = true

/-- All or nothing of what a record asks to supersede. -/
def AllOrNothing (prior : List MemoryFact) (r : MemoryFact) : Prop :=
  r.supersedes = [] ∨
    Complete prior r.key r.origin r.supersedesQuotes (r.supersedesIds.getD []) r.supersedes

theorem factOf_record (h : factOf lib prior additions evidence assigned p = some r) :
    RecordOf lib evidence p r ∧ ((prior.map (·.id)).Nodup → AllOrNothing prior r) := by
  unfold factOf at h
  split at h
  next => cases h
  next hgiven =>
    simp only [not_or, Bool.not_eq_false] at hgiven
    obtain ⟨hkey, -, hstatement, hlength, -⟩ := hgiven
    simp only [] at h
    split at h
    next => cases h
    next =>
      have hids : ∀ ts : List Text, (if ts = [] then none else some ts).getD [] = ts := by
        intro ts
        split
        next hnil => exact hnil.symm
        next => rfl
      obtain rfl := Option.some.inj h
      refine ⟨⟨rfl, hkey, rfl, ⟨hstatement, by omega⟩, rfl, rfl, rfl, rfl, ?_, rfl, hids _⟩, fun hnodup => ?_⟩
      · rw [Option.all_eq_true]
        intro day hday
        have hvalid := (Option.filter_eq_some_iff.1 hday).2
        rw [decide_eq_true_eq] at hvalid
        exact hvalid.1
      · unfold AllOrNothing
        rw [hids]
        exact correctionEdges_complete hnodup _ _

theorem RecordOf.isValid (h : RecordOf lib evidence p r) (hreadable : Readable lib evidence p)
    (hlower : ∀ t, lib.toLowerCase t = [] → t = []) : r.isValid lib = true := by
  have hkey : r.key ≠ [] := by
    rw [h.key]
    exact fun hnil => h.named (hlower _ hnil)
  have hstatement : r.statement ≠ [] := by
    rw [h.statement]
    intro hnil
    exact h.said.1 (by rw [hnil]; rfl)
  have hrendered : r.renderedStatement.all (utf16Length · ≤ 800) = true := by
    have hproposed := hreadable.rendered
    rw [h.rendered]
    cases hgiven : p.renderedStatement with
    | none => rfl
    | some t =>
      rw [hgiven] at hproposed
      rw [Option.filter_some]
      split
      next => exact hproposed
      next => rfl
  unfold MemoryFact.isValid
  simp only [Bool.and_eq_true, decide_eq_true_eq, and_assoc]
  refine ⟨hkey, ?_, hstatement, ?_, ?_, h.id, h.effective, hrendered, ?_⟩
  · rw [h.key]
    exact hreadable.key
  · rw [h.statement]
    exact h.said.2
  · rw [h.evidenceRef]
    exact hreadable.evidenceRef
  · rw [h.legacy]
    exact hreadable.legacy

/-! ## The records of a call -/

/-- **The records a call adds** have ids of their own, and each is the record of one of the first proposals. -/
theorem addFacts_records (prior : List MemoryFact) (evidence : MemoryEntry) (assigned : Text)
    (proposals : List FactProposal) :
    ((addFacts lib prior evidence assigned proposals).map (·.id)).Nodup ∧
      ∀ r ∈ addFacts lib prior evidence assigned proposals, r.id ∉ prior.map (·.id) ∧ ∃ p ∈ proposals.take 24,
        RecordOf lib evidence p r ∧ ((prior.map (·.id)).Nodup → AllOrNothing prior r) := by
  unfold addFacts
  refine List.foldlRecOn _ _ (motive := fun additions => (additions.map (·.id)).Nodup ∧ ∀ r ∈ additions,
    r.id ∉ prior.map (·.id) ∧ ∃ p ∈ proposals.take 24, RecordOf lib evidence p r ∧
      ((prior.map (·.id)).Nodup → AllOrNothing prior r)) ⟨List.nodup_nil, fun r hr => absurd hr List.not_mem_nil⟩
    fun additions ⟨hnodup, hrecords⟩ p hp => ?_
  cases hfact : factOf lib prior additions evidence assigned p with
  | none =>
    rw [Option.toList_none, List.append_nil]
    exact ⟨hnodup, hrecords⟩
  | some f =>
    obtain ⟨hnew, -⟩ := factOf_new hfact
    rw [List.map_append, List.mem_append, not_or] at hnew
    rw [Option.toList_some]
    refine ⟨?_, fun r hr => ?_⟩
    · rw [List.map_append, List.map_singleton, List.nodup_append]
      refine ⟨hnodup, List.nodup_singleton _, fun id hid other hother => ?_⟩
      rw [List.mem_singleton.1 hother]
      rintro rfl
      exact hnew.2 hid
    · rcases List.mem_append.1 hr with hr | hr
      · exact hrecords r hr
      · rw [List.mem_singleton.1 hr]
        exact ⟨hnew.1, p, hp, factOf_record hfact⟩

/-- The values of a list that is there, or is not there yet. -/
def listed : Option Value → Option (List Value)
  | none => some []
  | some (.list items) => some items
  | some _ => none

/-- The one value under a key that is set. -/
theorem get_set_self (f : Frontmatter) (key : Text) (value : Value) : (f.set key value).get key = some value := by
  have hset : (key, value) ∈ f.set key value ∧ ∀ e ∈ f.set key value, e.1 = key → e = (key, value) := by
    unfold Frontmatter.set
    split
    next hany =>
      obtain ⟨e, he, hkey⟩ := List.any_eq_true.1 hany
      rw [decide_eq_true_eq] at hkey
      refine ⟨List.mem_map.2 ⟨e, he, if_pos hkey⟩, fun d hd hdkey => ?_⟩
      obtain ⟨d', -, rfl⟩ := List.mem_map.1 hd
      by_cases hd' : d'.1 = key
      · rw [if_pos hd']
      · rw [if_neg hd'] at hdkey
        exact absurd hdkey hd'
    next hany =>
      refine ⟨List.mem_append_right _ (List.mem_singleton.2 rfl), fun d hd hdkey => ?_⟩
      rcases List.mem_append.1 hd with hd | hd
      · exact absurd (List.any_eq_true.2 ⟨d, hd, decide_eq_true hdkey⟩) hany
      · exact List.mem_singleton.1 hd
  unfold Frontmatter.get
  cases hfind : (f.set key value).find? (·.1 = key) with
  | none => exact absurd (decide_eq_true rfl) (List.find?_eq_none.1 hfind _ hset.1)
  | some e =>
    have hkey := List.find?_some hfind
    rw [decide_eq_true_eq] at hkey
    rw [hset.2 e (List.mem_of_find?_eq_some hfind) hkey, Option.map_some]

theorem newFacts_eq {original : Option Text} {items : List Value} (h : listed (priorFacts lib original) = some items)
    (proposals : List FactProposal) (evidence : MemoryEntry) (assigned : Text) :
    newFacts lib original proposals evidence assigned =
      addFacts lib (parseMemoryFacts lib (priorFacts lib original)) evidence assigned proposals := by
  unfold newFacts
  cases hprior : priorFacts lib original with
  | none => rfl
  | some v =>
    rw [hprior] at h
    cases v with
    | list items => rfl
    | _ => cases h

theorem newFacts_nil {original : Option Text} (h : listed (priorFacts lib original) = none) (proposals : List FactProposal)
    (evidence : MemoryEntry) (assigned : Text) : newFacts lib original proposals evidence assigned = [] := by
  unfold newFacts
  cases hprior : priorFacts lib original with
  | none =>
    rw [hprior] at h
    cases h
  | some v =>
    rw [hprior] at h
    cases v with
    | list items => cases h
    | _ => rfl

/-- What is written under the key of the records: the list, if it holds any. -/
theorem withFacts_listed {value : Option Value} {items : List Value} (h : listed value = some items) (f : Frontmatter)
    (additions : List MemoryFact) :
    withFacts f value additions = if items ++ additions.map MemoryFact.value = [] then f.erase memoryFactsKey
      else f.erase memoryFactsKey ++ [(memoryFactsKey, .list (items ++ additions.map MemoryFact.value))] := by
  have hempty : withFacts f none additions = if additions.map MemoryFact.value = [] then f.erase memoryFactsKey
      else f.erase memoryFactsKey ++ [(memoryFactsKey, .list (additions.map MemoryFact.value))] := by
    rw [← set_erase]
    simp only [List.map_eq_nil_iff]
    rfl
  cases value with
  | none =>
    obtain rfl : [] = items := Option.some.inj h
    exact hempty
  | some v =>
    cases v with
    | list items' =>
      obtain rfl : items' = items := Option.some.inj h
      cases items' with
      | nil => exact hempty
      | cons item items =>
        rw [if_neg (by simp), ← set_erase]
        rfl
    | _ => cases h

variable {tail : Value → Value}

/-- What is under the key of the records, as it is written and as it is read back. -/
theorem get_withFacts_listed {f : Frontmatter} (hkeys : (f.map (·.1)).Nodup) {value : Option Value} {items : List Value}
    (h : listed value = some items) {additions : List MemoryFact} (hany : items ++ additions.map MemoryFact.value ≠ []) :
    (withFacts f value additions).get memoryFactsKey = some (.list (items ++ additions.map MemoryFact.value)) ∧
      ((withFacts f value additions).mapLast tail).get memoryFactsKey =
        some (tail (.list (items ++ additions.map MemoryFact.value))) := by
  have hwritten := set_keys (erase_keys hkeys memoryFactsKey) memoryFactsKey
    (.list (items ++ additions.map MemoryFact.value))
  rw [set_erase] at hwritten
  rw [withFacts_listed h, if_neg hany]
  exact get_mapLast_last tail hwritten List.getLast?_concat

/-- The last text of a list that ends in records is in the last of them. -/
theorem LastText.of_added {items : List Value} {additions : List MemoryFact} (hadded : additions ≠ []) {w : Value}
    (h : LastText (.list (items ++ additions.map MemoryFact.value)) w) :
    ∃ additions', Reread additions additions' ∧ w = .list (items ++ additions'.map MemoryFact.value) := by
  generalize hv : Value.list (items ++ additions.map MemoryFact.value) = v at h
  cases h with
  | refl => exact ⟨additions, .refl additions, hv.symm⟩
  | str => cases hv
  | map => cases hv
  | list items' h =>
    obtain ⟨init, last, rfl⟩ := (List.eq_nil_or_concat additions).resolve_left hadded
    rw [List.concat_eq_append, List.map_append, List.map_singleton, ← List.append_assoc] at hv
    obtain ⟨rfl, hlast⟩ := List.append_inj' (Value.list.inj hv) rfl
    obtain rfl := List.singleton_inj.1 hlast
    obtain ⟨quote, rfl⟩ := h.of_value
    refine ⟨init ++ [last.reverified quote], ?_, ?_⟩
    · rw [List.concat_eq_append]
      exact .last init last quote
    · rw [List.map_append, ← List.append_assoc]
      rfl

theorem Reread.exists_mem {facts facts' : List MemoryFact} (h : Reread facts facts') (hr : r ∈ facts) :
    ∃ quote, r.reverified quote ∈ facts' := by
  cases h with
  | refl => exact ⟨r.verificationQuote, hr⟩
  | last facts f quote =>
    rcases List.mem_append.1 hr with hr | hr
    · exact ⟨r.verificationQuote, List.mem_append_left _ hr⟩
    · rw [List.mem_singleton.1 hr]
      exact ⟨quote, List.mem_append_right _ (List.mem_singleton.2 rfl)⟩

theorem mem_parseMemoryFacts {items : List Value} {facts : List MemoryFact} (hr : r ∈ facts)
    (hvalid : r.isValid lib = true) :
    r ∈ parseMemoryFacts lib (some (.list (items ++ facts.map MemoryFact.value))) := by
  show r ∈ (items ++ facts.map MemoryFact.value).filterMap (readFact lib)
  rw [List.filterMap_append, List.mem_append]
  refine Or.inr (List.mem_filterMap.2 ⟨r.value, List.mem_map_of_mem hr, ?_⟩)
  rw [readFact_value, if_pos hvalid]

/-! ## The text of a call -/

theorem dropWhile_prefix {α : Type} (q : α → Bool) (xs ys : List α) : xs.dropWhile q <+: (xs ++ ys).dropWhile q := by
  induction xs with
  | nil => exact List.nil_prefix
  | cons x xs ih =>
    rw [List.cons_append, List.dropWhile_cons, List.dropWhile_cons]
    split
    next => exact ih
    next => exact List.prefix_append (x :: xs) ys

/-- A text that holds the note `raw` with the records `added`: its frontmatter is `g`, and `body` is behind it. -/
structure Appended (lib : Library) (tail : Value → Value) (raw : Text) (prior : Option Value) (added : List MemoryFact)
    (g : Frontmatter) (body text : Text) : Prop where
  written : text = serializeNote lib.yaml g body
  grown : (parseNote lib.yaml raw).body <+: body
  read : parseNote lib.yaml text = { frontmatter := some (g.mapLast tail), body := '\n' :: body.dropWhile (· = '\n') }
  kept : (parseNote lib.yaml raw).body.dropWhile (· = '\n') <+: (parseNote lib.yaml text).body.dropWhile (· = '\n')
  /-- A value that is no list. -/
  other : listed prior = none → g.get memoryFactsKey = prior ∧ added = []
  list : ∀ items, listed prior = some items → g.get memoryFactsKey =
    if items ++ added.map MemoryFact.value = [] then none else some (.list (items ++ added.map MemoryFact.value))
  /-- The values that were there are read back in front. -/
  reread : ∀ items, listed prior = some items → added ≠ [] → ∃ added', Reread added added' ∧
    priorFacts lib (some text) = some (.list (items ++ added'.map MemoryFact.value))

/-- Records that are added, each for one of the first proposals. -/
structure Recorded (lib : Library) (prior : List MemoryFact) (evidence : MemoryEntry) (proposals : List FactProposal)
    (added : List MemoryFact) : Prop where
  nodup : (added.map (·.id)).Nodup
  fresh : ∀ r ∈ added, r.id ∉ prior.map (·.id)
  proposed : ∀ r ∈ added, ∃ p ∈ proposals.take 24, RecordOf lib evidence p r
  edges : (prior.map (·.id)).Nodup → ∀ r ∈ added, AllOrNothing prior r

theorem newFacts_recorded (original : Option Text) (proposals : List FactProposal) (evidence : MemoryEntry)
    (assigned : Text) :
    Recorded lib (parseMemoryFacts lib (priorFacts lib original)) evidence proposals
      (newFacts lib original proposals evidence assigned) := by
  cases hlisted : listed (priorFacts lib original) with
  | none =>
    rw [newFacts_nil hlisted]
    refine ⟨List.nodup_nil, ?_, ?_, fun _ => ?_⟩ <;> exact fun r hr => absurd hr List.not_mem_nil
  | some items =>
    obtain ⟨hnodup, hrecords⟩ := @addFacts_records lib (parseMemoryFacts lib (priorFacts lib original)) evidence assigned
      proposals
    rw [newFacts_eq hlisted]
    refine ⟨hnodup, fun r hr => (hrecords r hr).1, fun r hr => ?_, fun hids r hr => ?_⟩
    · obtain ⟨-, p, hp, hrecord, -⟩ := hrecords r hr
      exact ⟨p, hp, hrecord⟩
    · obtain ⟨-, p, -, -, hedges⟩ := hrecords r hr
      exact hedges hids

theorem appendMemoryFacts_appended (laws : lib.yaml.Lawful tail) (htail : ∀ v, LastText v (tail v)) {raw : Text}
    {f : Frontmatter} (hraw : (parseNote lib.yaml raw).frontmatter = some f) (original : Option Text)
    (proposals : List FactProposal) (evidence : MemoryEntry) (assigned : Text) :
    ∃ g body, Appended lib tail raw (priorFacts lib original) (newFacts lib original proposals evidence assigned) g body
      (appendMemoryFacts lib raw original proposals evidence assigned) := by
  obtain ⟨hkeys, hread⟩ := priorFacts_append laws hraw original proposals evidence assigned
  have htext : ∃ behind, appendMemoryFacts lib raw original proposals evidence assigned = serializeNote lib.yaml
      (withFacts f (priorFacts lib original) (newFacts lib original proposals evidence assigned))
      ((parseNote lib.yaml raw).body ++ behind) := by
    unfold appendMemoryFacts
    simp only [hraw]
    exact ⟨_, rfl⟩
  obtain ⟨behind, htext⟩ := htext
  have hparsed := @parseNote_serialized lib.yaml tail laws _ (withFacts_keys hkeys (priorFacts lib original)
    (newFacts lib original proposals evidence assigned)) ('\n' :: ((parseNote lib.yaml raw).body ++ behind).dropWhile (· = '\n'))
  rw [← serializeValue_envelope, ← serializeNote, ← htext] at hparsed
  refine ⟨_, _, htext, List.prefix_append _ _, hparsed, ?_, fun hother => ?_, fun items hitems => ?_,
    fun items hitems hadded => ?_⟩
  · rw [hparsed, List.dropWhile_cons_of_pos (by simp), List.dropWhile_idempotent]
    exact dropWhile_prefix _ _ _
  · rw [newFacts_nil hother]
    cases hprior : priorFacts lib original with
    | none =>
      rw [hprior] at hother
      cases hother
    | some v =>
      rw [hprior] at hother
      rw [withFacts_other (fun items heq => by rw [heq] at hother; cases hother)]
      exact ⟨get_set_self f memoryFactsKey v, rfl⟩
  · split
    next hnil => rw [withFacts_listed hitems, if_pos hnil, get_erase_self]
    next hany => exact (@get_withFacts_listed id f hkeys _ items hitems _ hany).1
  · have hany : items ++ (newFacts lib original proposals evidence assigned).map MemoryFact.value ≠ [] := by
      simpa using fun _ => hadded
    obtain ⟨added, hreread, hvalue⟩ := (htail _).of_added hadded
    exact ⟨added, hreread, by rw [hread, (get_withFacts_listed hkeys hitems hany).2, hvalue]⟩

/-- **A call only adds.** A note without frontmatter stays as it is. In another one, a value that is no list stays as it is
and nothing is added; the values of a list stay in front, with the records behind them, and the body is what it was, with
lines behind it. The records have ids of their own, and they are read back within the limits of the reader. A record
supersedes nothing, or all it asks for, if the records before it have ids of their own. -/
theorem appendMemoryFacts_appends (laws : lib.yaml.Lawful tail) (htail : ∀ v, LastText v (tail v))
    (hlower : ∀ t, lib.toLowerCase t = [] → t = []) (raw : Text) (original : Option Text) (proposals : List FactProposal)
    (evidence : MemoryEntry) (assigned : Text) :
    ((parseNote lib.yaml raw).frontmatter = none → appendMemoryFacts lib raw original proposals evidence assigned = raw) ∧
    ((parseNote lib.yaml raw).frontmatter ≠ none → ∃ added g body,
      Appended lib tail raw (priorFacts lib original) added g body
        (appendMemoryFacts lib raw original proposals evidence assigned) ∧
      Recorded lib (parseMemoryFacts lib (priorFacts lib original)) evidence proposals added ∧
      ∀ r ∈ added, ∀ p, RecordOf lib evidence p r → Readable lib evidence p →
        r ∈ parseMemoryFacts lib (g.get memoryFactsKey) ∧ ∃ quote, r.reverified quote ∈
          parseMemoryFacts lib (priorFacts lib (some (appendMemoryFacts lib raw original proposals evidence assigned)))) := by
  constructor
  · intro hnone
    unfold appendMemoryFacts
    simp only [hnone]
  · intro hsome
    obtain ⟨f, hraw⟩ := Option.ne_none_iff_exists'.1 hsome
    obtain ⟨g, body, happended⟩ := @appendMemoryFacts_appended lib tail laws htail raw f hraw original proposals evidence
      assigned
    refine ⟨_, g, body, happended, newFacts_recorded original proposals evidence assigned,
      fun r hr p hrecord hreadable => ?_⟩
    have hvalid := hrecord.isValid hreadable hlower
    have hadded := List.ne_nil_of_mem hr
    cases hlisted : listed (priorFacts lib original) with
    | none =>
      rw [(happended.other hlisted).2] at hr
      cases hr
    | some items =>
      have hany : items ++ (newFacts lib original proposals evidence assigned).map MemoryFact.value ≠ [] := by
        simpa using fun _ => hadded
      obtain ⟨added, hreread, hvalue⟩ := happended.reread items hlisted hadded
      obtain ⟨quote, hquote⟩ := hreread.exists_mem hr
      rw [happended.list items hlisted, if_neg hany, hvalue]
      exact ⟨mem_parseMemoryFacts hr hvalid, quote, mem_parseMemoryFacts hquote hvalid⟩

/-- The second report is added behind the first. -/
theorem greyNote_appends : ∃ added g body,
    Appended skyLibrary lastRead blueNote (priorFacts skyLibrary (some blueNote)) added g body greyNote ∧
      Recorded skyLibrary (parseMemoryFacts skyLibrary (priorFacts skyLibrary (some blueNote))) greyReport.toMemoryEntry
        [greyProposal] added := by
  have hlower : ∀ t, skyLibrary.toLowerCase t = [] → t = [] := fun t ht => List.map_eq_nil_iff.1 ht
  have hsome : (parseNote skyLibrary.yaml blueNote).frontmatter ≠ none := by
    rw [blueNote_frontmatter]
    exact Option.some_ne_none _
  obtain ⟨added, g, body, happended, hrecorded, -⟩ := (appendMemoryFacts_appends skyLibrary_lawful lastText_lastRead hlower
    blueNote (some blueNote) [greyProposal] greyReport.toMemoryEntry greyReport.content).2 hsome
  exact ⟨added, g, body, happended, hrecorded⟩

/-- A statement to render makes no other difference. -/
theorem factOf_rendered (prior additions : List MemoryFact) (evidence : MemoryEntry) (assigned : Text) (p : FactProposal)
    (rendered : Option Text) :
    factOf lib prior additions evidence assigned { p with renderedStatement := rendered } =
      (factOf lib prior additions evidence assigned p).map
        fun r => { r with renderedStatement := rendered.filter (· ≠ []) } := by
  unfold factOf
  split
  next => rfl
  next =>
    simp only []
    split
    next => rfl
    next => rfl

/-- **Records that do not stay, are not read back or leave out a target**: behind a text without frontmatter, with a statement
to render of 801 letters, and where a record is there twice. -/
theorem appends_fails :
    (¬∀ raw original proposals evidence assigned items, priorFacts skyLibrary (some original) = some (.list items) →
      ∃ more, priorFacts skyLibrary (some (appendMemoryFacts skyLibrary raw (some original) proposals evidence assigned)) =
        some (.list (items ++ more))) ∧
    (¬∀ proposals evidence assigned, ∀ r ∈ newFacts skyLibrary none proposals evidence assigned,
      r ∈ parseMemoryFacts skyLibrary (some (.list [r.value]))) ∧
    ¬∀ prior p key origin quote targeted,
      (correctionEdges skyLibrary prior p key origin none (some quote) [] targeted).1 = [] ∨ Complete prior key origin [] targeted
        (correctionEdges skyLibrary prior p key origin none (some quote) [] targeted).1 := by
  refine ⟨fun h => ?_, fun h => ?_, fun h => ?_⟩
  · have hprior : priorFacts skyLibrary (some blueNote) = some (.list ([blueFact].map MemoryFact.value)) := by
      rw [priorFacts_some, blueNote_frontmatter]
      rfl
    obtain ⟨more, hmore⟩ := h "Hello".toList blueNote [] blueReport.toMemoryEntry [] _ hprior
    cases hmore
  · have hblue : factOf skyLibrary [] [] blueReport.toMemoryEntry blueReport.content blueProposal = some blueFact := by
      have hadded := blue_added
      change (factOf skyLibrary [] [] blueReport.toMemoryEntry blueReport.content blueProposal).toList = _ at hadded
      exact Option.toList_eq_singleton_iff.1 hadded
    obtain ⟨r, hr, hrendered⟩ : ∃ r, newFacts skyLibrary none
        [{ blueProposal with renderedStatement := some (List.replicate 801 'a') }] blueReport.toMemoryEntry
        blueReport.content = [r] ∧ r.renderedStatement = some (List.replicate 801 'a') := by
      refine ⟨{ blueFact with renderedStatement := some (List.replicate 801 'a') }, ?_, rfl⟩
      show (factOf skyLibrary [] [] blueReport.toMemoryEntry blueReport.content
        { blueProposal with renderedStatement := some (List.replicate 801 'a') }).toList = _
      rw [factOf_rendered, hblue]
      rfl
    have hread := h _ _ _ r (hr ▸ List.mem_singleton.2 rfl)
    rw [← List.map_singleton, parseMemoryFacts_values] at hread
    have hvalid := (List.mem_filter.1 hread).2
    unfold MemoryFact.isValid at hvalid
    simp only [Bool.and_eq_true, hrendered, Option.all_some] at hvalid
    have hshort : utf16Length (List.replicate 801 'a') ≤ 800 := of_decide_eq_true hvalid.1.2
    rw [utf16Length, List.map_replicate, List.sum_replicate_nat] at hshort
    exact absurd hshort (by decide)
  · rcases h [blueFact, blueFact] blueProposal blueFact.key .userReport [] [blueFact.id, "lost".toList] with hnil | hcomplete
    · cases hnil
    · obtain ⟨target, ⟨htarget, -⟩, hid⟩ := hcomplete.ids "lost".toList (by decide)
      simp at htarget
      rw [htarget] at hid
      cases hid

end Zenod.Engine
