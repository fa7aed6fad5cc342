/-
The records a note has after any calls of `appendMemoryFacts`
(`engine/temporalFacts.ts`), the first of them on an empty note.

`kept_chronicle`: no two of its valid records have one id, and each supersedes
only records that stand before it.
-/
import Zenod.Engine.Frame

namespace Zenod.Engine

open Text Vault
open Evidence (MemoryEntry)

variable (lib : Library)

/-- The texts of a note that starts empty. -/
inductive Kept : Option Text → Prop
  | empty : Kept none
  | append {original : Option Text} (h : Kept original) (raw : Text) (proposals : List FactProposal)
    (evidence : MemoryEntry) (assigned : Text) :
    Kept (some (appendMemoryFacts lib raw original proposals evidence assigned))

/-- The values differ at most in the text that stands last. -/
inductive LastText : Value → Value → Prop
  | refl (v : Value) : LastText v v
  | str (s t : Text) : LastText (.str s) (.str t)
  | list (items : List Value) {v w : Value} (h : LastText v w) : LastText (.list (items ++ [v])) (.list (items ++ [w]))
  | map (entries : List (Text × Value)) (key : Text) {v w : Value} (h : LastText v w) :
    LastText (.map (entries ++ [(key, v)])) (.map (entries ++ [(key, w)]))

/-! ## A record is read back -/

def LegacyStatementHistory.isValid (h : LegacyStatementHistory) : Bool :=
  decide (utf16Length h.statement ≤ 1600) &&
    decide (h.contentHash.length = 64 ∧ (h.contentHash.all fun c => "0123456789abcdef".toList.contains c) = true) &&
    decide (h.provider = "github".toList ∨ h.provider = "google_drive".toList) && decide (h.revision ≠ [])

/-- What is asked of a record. -/
def MemoryFact.isValid (f : MemoryFact) : Bool :=
  decide (f.key ≠ [] ∧ utf16Length f.key ≤ 160) && decide (f.statement ≠ [] ∧ utf16Length f.statement ≤ 1600) &&
    isEvidenceRef f.evidenceRef && decide (f.id = factId lib f.evidenceRef f.key f.statement) &&
    f.effectiveDate.all (validFactDate ·) && f.renderedStatement.all (utf16Length · ≤ 800) &&
    f.legacySupersedes.all (·.isValid)

/-- The fields of a record, the undefined ones among them. -/
def MemoryFact.fields (f : MemoryFact) : List (Text × Option Value) :=
  [("id".toList, some (.str f.id)), ("key".toList, some (.str f.key)), ("statement".toList, some (.str f.statement)),
    ("renderedStatement".toList, f.renderedStatement.map .str),
    ("reportedConflict".toList, if f.reportedConflict then some (.bool true) else none),
    ("legacySupersedes".toList, f.legacySupersedes.map LegacyStatementHistory.value),
    ("evidenceRef".toList, some (.str f.evidenceRef)), ("evidenceDate".toList, some (textOrNull f.evidenceDate)),
    ("effectiveDate".toList, some (textOrNull f.effectiveDate)),
    ("effectiveDateQuote".toList, some (textOrNull f.effectiveDateQuote)),
    ("correctionQuote".toList, some (textOrNull f.correctionQuote)),
    ("supersedesQuotes".toList, some (textValues f.supersedesQuotes)),
    ("supersedesIds".toList, f.supersedesIds.map textValues), ("supersedes".toList, some (textValues f.supersedes)),
    ("unresolvedCorrection".toList, some (.bool f.unresolvedCorrection)), ("origin".toList, some (.str f.origin.text)),
    ("verificationQuote".toList, some (textOrNull f.verificationQuote))]

/-- The fields that are defined. -/
def definedEntries (fields : List (Text × Option Value)) : Entries :=
  fields.filterMap fun f => f.2.map fun v => (f.1, v)

theorem value_eq (f : MemoryFact) : f.value = .map (definedEntries f.fields) := by
  unfold MemoryFact.value MemoryFact.fields definedEntries
  cases f.renderedStatement <;> cases f.reportedConflict <;> cases f.legacySupersedes <;> cases f.supersedesIds <;> rfl

theorem field_definedEntries {fields : List (Text × Option Value)} (hkeys : (fields.map (·.1)).Nodup) (key : Text) :
    Frontmatter.get (definedEntries fields) key = (fields.find? (·.1 = key)).bind (·.2) := by
  induction fields with
  | nil => rfl
  | cons f fields ih =>
    obtain ⟨k, v⟩ := f
    rw [List.map_cons, List.nodup_cons] at hkeys
    cases v with
    | some v =>
      have hdefined : definedEntries ((k, some v) :: fields) = (k, v) :: definedEntries fields := rfl
      rw [hdefined, Frontmatter.get_cons, List.find?_cons, ih hkeys.2]
      by_cases hk : k = key
      · simp [hk]
      · simp [hk]
    | none =>
      have hdefined : definedEntries ((k, none) :: fields) = definedEntries fields := rfl
      rw [hdefined, List.find?_cons, ih hkeys.2]
      by_cases hk : k = key
      · -- A field that is left out stands nowhere else.
        have hnone : fields.find? (·.1 = key) = none := by
          rw [List.find?_eq_none]
          intro f hf hkey
          have hmem : f.1 ∈ fields.map (·.1) := List.mem_map_of_mem hf
          rw [of_decide_eq_true hkey, ← hk] at hmem
          exact hkeys.1 hmem
        rw [hnone]
        simp [hk]
      · simp [hk]

theorem fields_keys (f : MemoryFact) : (f.fields.map (·.1)).Nodup := by
  have hkeys : (["id", "key", "statement", "renderedStatement", "reportedConflict", "legacySupersedes", "evidenceRef",
      "evidenceDate", "effectiveDate", "effectiveDateQuote", "correctionQuote", "supersedesQuotes", "supersedesIds",
      "supersedes", "unresolvedCorrection", "origin", "verificationQuote"].map String.toList).Nodup := by decide
  exact hkeys

/-- What is found under a key of a record. -/
theorem field_value (f : MemoryFact) (key : String) :
    Entries.field (definedEntries f.fields) key = (f.fields.find? (·.1 = key.toList)).bind (·.2) :=
  field_definedEntries (fields_keys f) _

@[simp] theorem text?_str (t : Text) : Value.text? (.str t) = some t := rfl

@[simp] theorem texts?_textValues (ts : List Text) : Value.texts? (textValues ts) = some ts := by
  show (ts.map Value.str).mapM Value.text? = some ts
  induction ts with
  | nil => rfl
  | cons t ts ih => rw [List.map_cons, List.mapM_cons, ih]; rfl

theorem readOrigin_text (o : Origin) : readOrigin o.text = some o := by
  cases o <;> decide

theorem filter_bind {α β : Type} (p : α → Bool) (a : α) (k : α → Option β) :
    ((some a).filter p).bind k = if p a then k a else none := by
  rw [Option.filter_some]
  split <;> rfl

theorem ite_bind_none {α β : Type} (p : Bool) (a : α) (k : α → Option β) :
    (if p then some a else none).bind k = if p then k a else none := by
  cases p <;> rfl

theorem ite_ite_none {α : Type} (p q : Bool) (x : Option α) :
    (if p then if q then x else none else none) = if p && q then x else none := by
  cases p <;> cases q <;> rfl

theorem readLegacy_value (h : LegacyStatementHistory) :
    readLegacy h.value = if h.isValid then some h else none := by
  obtain ⟨e, he⟩ : ∃ e : Entries, e = [("path".toList, .str h.path), ("statement".toList, .str h.statement),
      ("statementId".toList, .str h.statementId), ("contentHash".toList, .str h.contentHash),
      ("provider".toList, .str h.provider), ("revision".toList, .str h.revision)] := ⟨_, rfl⟩
  have hpath : Entries.textField e "path" = some h.path := by rw [he]; rfl
  have hstatement : Entries.textField e "statement" = some h.statement := by rw [he]; rfl
  have hid : Entries.textField e "statementId" = some h.statementId := by rw [he]; rfl
  have hhash : Entries.textField e "contentHash" = some h.contentHash := by rw [he]; rfl
  have hprovider : Entries.textField e "provider" = some h.provider := by rw [he]; rfl
  have hrevision : Entries.textField e "revision" = some h.revision := by rw [he]; rfl
  have hvalue : h.value = .map e := by rw [he]; rfl
  rw [hvalue]
  unfold readLegacy LegacyStatementHistory.isValid
  simp only [hpath, hstatement, hid, hhash, hprovider, hrevision, Option.bind_eq_bind, Option.bind_some, filter_bind,
    ite_ite_none, ← Bool.and_assoc]
  rfl

theorem nullable_of_field {e : Entries} {key : String} {t : Option Text} (h : e.field key = some (textOrNull t)) :
    e.nullable key = some t := by
  unfold Entries.nullable
  rw [h]
  cases t <;> rfl

theorem texts_of_field {e : Entries} {key : String} {ts : List Text} (h : e.field key = some (textValues ts)) :
    e.texts key = some ts := by
  unfold Entries.texts
  rw [h]
  exact texts?_textValues ts

theorem textField_of_field {e : Entries} {key : String} {t : Text} (h : e.field key = some (.str t)) :
    e.textField key = some t := by
  unfold Entries.textField
  rw [h]
  rfl

/-- A field that may be left out is read if it may be read. -/
theorem optional_of_field {α : Type} {e : Entries} {key : String} {a : Option α} {write : α → Value} {read : Value → Option α}
    {valid : α → Bool} (h : e.field key = a.map write) (hread : ∀ a, read (write a) = if valid a then some a else none) :
    e.optional key read = if a.all valid then some a else none := by
  unfold Entries.optional
  rw [h]
  cases a with
  | none => rfl
  | some a =>
    simp only [Option.map_some, hread, Option.all_some]
    by_cases hvalid : valid a = true
    · rw [if_pos hvalid, if_pos hvalid]
      rfl
    · rw [if_neg hvalid, if_neg hvalid]
      rfl

/-- **A record that is written is read back**, if it is valid. -/
theorem readFact_value (f : MemoryFact) : readFact lib f.value = if f.isValid lib then some f else none := by
  have hid : (definedEntries f.fields).textField "id" = some f.id := textField_of_field (field_value f _)
  have hkey : (definedEntries f.fields).textField "key" = some f.key := textField_of_field (field_value f _)
  have hstatement : (definedEntries f.fields).textField "statement" = some f.statement := textField_of_field (field_value f _)
  have href : (definedEntries f.fields).textField "evidenceRef" = some f.evidenceRef := textField_of_field (field_value f _)
  have horigin : (definedEntries f.fields).textField "origin" = some f.origin.text := textField_of_field (field_value f _)
  have hdate : (definedEntries f.fields).nullable "evidenceDate" = some f.evidenceDate := nullable_of_field (field_value f _)
  have heffective : (definedEntries f.fields).nullable "effectiveDate" = some f.effectiveDate :=
    nullable_of_field (field_value f _)
  have hquote : (definedEntries f.fields).nullable "effectiveDateQuote" = some f.effectiveDateQuote :=
    nullable_of_field (field_value f _)
  have hcorrection : (definedEntries f.fields).nullable "correctionQuote" = some f.correctionQuote :=
    nullable_of_field (field_value f _)
  have hverification : (definedEntries f.fields).nullable "verificationQuote" = some f.verificationQuote :=
    nullable_of_field (field_value f _)
  have hquotes : (definedEntries f.fields).texts "supersedesQuotes" = some f.supersedesQuotes := texts_of_field (field_value f _)
  have hsupersedes : (definedEntries f.fields).texts "supersedes" = some f.supersedes := texts_of_field (field_value f _)
  have hids : (definedEntries f.fields).optional "supersedesIds" Value.texts? = some f.supersedesIds := by
    have hfield : (definedEntries f.fields).field "supersedesIds" = f.supersedesIds.map textValues := field_value f _
    have hread : ∀ ts : List Text, Value.texts? (textValues ts) = if (fun _ => true) ts = true then some ts else none :=
      texts?_textValues
    rw [optional_of_field hfield hread]
    cases f.supersedesIds <;> rfl
  have hrendered : (definedEntries f.fields).optional "renderedStatement" (fun v => v.text?.filter (utf16Length · ≤ 800)) =
      if f.renderedStatement.all (utf16Length · ≤ 800) then some f.renderedStatement else none := by
    have hfield : (definedEntries f.fields).field "renderedStatement" = f.renderedStatement.map Value.str := field_value f _
    exact optional_of_field hfield fun t => Option.filter_some ..
  have hlegacy : (definedEntries f.fields).optional "legacySupersedes" readLegacy =
      if f.legacySupersedes.all (·.isValid) then some f.legacySupersedes else none :=
    optional_of_field (field_value f _) readLegacy_value
  have hreported : isTruthy ((definedEntries f.fields).field "reportedConflict") = f.reportedConflict := by
    rw [field_value]
    show isTruthy (if f.reportedConflict then some (.bool true) else none) = f.reportedConflict
    cases f.reportedConflict <;> rfl
  have hunresolved : ((definedEntries f.fields).field "unresolvedCorrection").bind Value.bool? = some f.unresolvedCorrection := by
    rw [field_value]
    rfl
  rw [value_eq]
  unfold readFact
  simp only [hid, hkey, hstatement, href, horigin, hdate, heffective, hquote, hcorrection, hverification, hquotes, hsupersedes,
    hids, hrendered, hlegacy, hreported, hunresolved, Option.bind_eq_bind, Option.bind_some, readOrigin_text]
  simp only [filter_bind, ite_bind_none, ite_ite_none, ← Bool.and_assoc]
  rfl

theorem parseMemoryFacts_values (facts : List MemoryFact) :
    parseMemoryFacts lib (some (.list (facts.map MemoryFact.value))) = facts.filter (·.isValid lib) := by
  show (facts.map MemoryFact.value).filterMap (readFact lib) = _
  rw [List.filterMap_map, ← List.filterMap_eq_filter]
  refine List.filterMap_congr fun f _ => ?_
  rw [Function.comp_apply, readFact_value]
  rfl

/-! ## The last text -/

/-- The same record with another quote of its verification. -/
def MemoryFact.reverified (f : MemoryFact) (quote : Option Text) : MemoryFact := { f with verificationQuote := quote }

theorem isValid_reverified (f : MemoryFact) (quote : Option Text) : (f.reverified quote).isValid lib = f.isValid lib := rfl

variable {lib}

theorem LastText.of_textOrNull {t : Option Text} {w : Value} (h : LastText (textOrNull t) w) : ∃ u, w = textOrNull u := by
  cases t with
  | none =>
    cases h with
    | refl => exact ⟨none, rfl⟩
  | some t =>
    cases h with
    | refl => exact ⟨some t, rfl⟩
    | str _ u => exact ⟨some u, rfl⟩

/-- A record ends with the quote of its verification. -/
theorem exists_value_eq (f : MemoryFact) : ∃ entries : Entries, ∀ quote,
    (f.reverified quote).value = .map (entries ++ [("verificationQuote".toList, textOrNull quote)]) := by
  refine ⟨definedEntries f.fields.dropLast, fun quote => ?_⟩
  rw [value_eq]
  show Value.map (definedEntries (f.fields.dropLast ++ [("verificationQuote".toList, some (textOrNull quote))])) = _
  unfold definedEntries
  rw [List.filterMap_append]
  rfl

/-- A record whose last text is another is the record with another quote of its verification. -/
theorem LastText.of_value {f : MemoryFact} {w : Value} (h : LastText f.value w) : ∃ quote, w = (f.reverified quote).value := by
  obtain ⟨entries, hentries⟩ := exists_value_eq f
  have hf : f.value = .map (entries ++ [("verificationQuote".toList, textOrNull f.verificationQuote)]) :=
    hentries f.verificationQuote
  rw [hf] at h
  generalize hv : Value.map (entries ++ [("verificationQuote".toList, textOrNull f.verificationQuote)]) = v at h
  cases h with
  | refl => exact ⟨f.verificationQuote, by rw [hentries, hv]⟩
  | str => cases hv
  | list => cases hv
  | map entries' key h =>
    obtain ⟨rfl, hlast⟩ := List.append_inj' (Value.map.inj hv) rfl
    obtain ⟨rfl, rfl⟩ := Prod.mk.inj (List.singleton_inj.1 hlast)
    obtain ⟨quote, rfl⟩ := h.of_textOrNull
    exact ⟨quote, (hentries quote).symm⟩

/-- The records are the same but for the last one's quote of its verification. -/
inductive Reread : List MemoryFact → List MemoryFact → Prop
  | refl (facts : List MemoryFact) : Reread facts facts
  | last (facts : List MemoryFact) (f : MemoryFact) (quote : Option Text) :
    Reread (facts ++ [f]) (facts ++ [f.reverified quote])

theorem LastText.of_list {facts : List MemoryFact} {w : Value} (h : LastText (.list (facts.map MemoryFact.value)) w) :
    ∃ facts', Reread facts facts' ∧ w = .list (facts'.map MemoryFact.value) := by
  generalize hv : Value.list (facts.map MemoryFact.value) = v at h
  cases h with
  | refl => exact ⟨facts, .refl facts, hv.symm⟩
  | str => cases hv
  | map => cases hv
  | list items h =>
    have hitems := Value.list.inj hv
    obtain ⟨init, last, rfl, rfl, hlast⟩ := List.map_eq_append_iff.1 hitems
    obtain ⟨f, rfl, rfl⟩ := List.map_eq_singleton_iff.1 hlast
    obtain ⟨quote, rfl⟩ := h.of_value
    exact ⟨init ++ [f.reverified quote], .last init f quote, by rw [List.map_append]; rfl⟩

/-! ## Records that build on records before them -/

/-- No two records have one id, and each supersedes only records that stand before it. -/
structure Ordered (facts : List MemoryFact) : Prop where
  nodup : (facts.map (·.id)).Nodup
  earlier : ∀ pre f post, facts = pre ++ f :: post → ∀ id ∈ f.supersedes, id ∈ pre.map (·.id)

theorem Ordered.nil : Ordered [] where
  nodup := List.nodup_nil
  earlier pre f post h := by simp at h

theorem Ordered.concat {facts : List MemoryFact} {f : MemoryFact} (h : Ordered facts) (hnew : f.id ∉ facts.map (·.id))
    (hedges : ∀ id ∈ f.supersedes, id ∈ facts.map (·.id)) : Ordered (facts ++ [f]) where
  nodup := by
    rw [List.map_append, List.nodup_append]
    refine ⟨h.nodup, List.nodup_singleton _, ?_⟩
    intro a ha b hb
    rw [List.mem_singleton.1 hb]
    rintro rfl
    exact hnew ha
  earlier pre g post heq id hid := by
    rcases List.eq_nil_or_concat post with rfl | ⟨post, last, rfl⟩
    · obtain ⟨rfl, hg⟩ := List.append_inj' heq rfl
      obtain rfl := List.singleton_inj.1 hg
      exact hedges id hid
    · rw [List.concat_eq_append, ← List.cons_append, ← List.append_assoc] at heq
      obtain ⟨rfl, _⟩ := List.append_inj' heq rfl
      exact h.earlier pre g post rfl id hid

/-- The ids and edges are all that counts. -/
theorem Ordered.congr {facts facts' : List MemoryFact} (h : Ordered facts)
    (heq : facts'.map (fun f => (f.id, f.supersedes)) = facts.map fun f => (f.id, f.supersedes)) : Ordered facts' := by
  have hids : ∀ {as bs : List MemoryFact}, (as.map fun f => (f.id, f.supersedes)) = bs.map (fun f => (f.id, f.supersedes)) →
      as.map (·.id) = bs.map (·.id) := by
    intro as bs hab
    have hfst := congrArg (List.map Prod.fst) hab
    rwa [List.map_map, List.map_map] at hfst
  constructor
  · rw [hids heq]
    exact h.nodup
  · intro pre f post hsplit id hid
    rw [hsplit, List.map_append, List.map_cons] at heq
    obtain ⟨pre', rest, rfl, hpre, hrest⟩ := List.map_eq_append_iff.1 heq.symm
    obtain ⟨f', post', rfl, hf, -⟩ := List.map_eq_cons_iff.1 hrest
    rw [hids hpre.symm]
    exact h.earlier pre' f' post' rfl id ((Prod.mk.inj hf).2 ▸ hid)

/-! ## Adding records -/

theorem correctionEdges_mem {prior : List MemoryFact} {p : FactProposal} {key : Text} {origin : Origin}
    {effectiveDate correctionQuote : Option Text} {requested targeted : List Text} :
    ∀ id ∈ (correctionEdges lib prior p key origin effectiveDate correctionQuote requested targeted).1,
      id ∈ prior.map (·.id) := by
  intro id hid
  unfold correctionEdges at hid
  simp only [] at hid
  split at hid
  next => cases hid
  next quote =>
    split at hid
    next => cases hid
    next =>
      split at hid
      next =>
        split at hid
        next => cases hid
        next =>
          obtain ⟨f, hf, rfl⟩ := List.mem_map.1 hid
          exact List.mem_map_of_mem (List.mem_filter.1 hf).1
      next =>
        split at hid
        next => cases hid
        next =>
          split at hid
          next =>
            -- An edge by a quote leads to the one record with that statement.
            obtain ⟨edge, hedge, rfl⟩ := List.mem_filterMap.1 hid
            obtain ⟨old, -, hold⟩ := List.mem_map.1 hedge
            split at hold
            next target htarget =>
              split at hold
              next =>
                cases hold
                have hmem : target ∈ prior.filter fun fact => fact.key == key && fact.statement == old && fact.origin = origin := by
                  rw [htarget]
                  exact List.mem_singleton.2 rfl
                exact List.mem_map_of_mem (List.mem_filter.1 hmem).1
              next => cases hold
            next => cases hold
          next => cases hid

/-- A record that is added has a new id, and supersedes records that were there before. -/
theorem factOf_new {prior additions : List MemoryFact} {evidence : MemoryEntry} {assigned : Text} {p : FactProposal}
    {f : MemoryFact} (h : factOf lib prior additions evidence assigned p = some f) :
    f.id ∉ (prior ++ additions).map (·.id) ∧ ∀ id ∈ f.supersedes, id ∈ prior.map (·.id) := by
  unfold factOf at h
  split at h
  next => cases h
  next =>
    simp only [] at h
    split at h
    next => cases h
    next hnew =>
      cases h
      refine ⟨fun hid => hnew ?_, correctionEdges_mem⟩
      obtain ⟨g, hg, hgid⟩ := List.mem_map.1 hid
      exact List.any_eq_true.2 ⟨g, hg, decide_eq_true hgid⟩

/-- **The records a call adds** stand behind the ones they build on, the malformed ones among them left out. -/
theorem addFacts_ordered {prior : List MemoryFact} (h : Ordered prior) (evidence : MemoryEntry) (assigned : Text)
    (proposals : List FactProposal) :
    Ordered (prior ++ (addFacts lib prior evidence assigned proposals).filter (·.isValid lib)) := by
  unfold addFacts
  refine List.foldlRecOn _ _ (motive := fun additions => Ordered (prior ++ List.filter (·.isValid lib) additions)) ?_
    fun additions hadditions p _ => ?_
  · rw [List.filter_nil, List.append_nil]
    exact h
  · cases hfact : factOf lib prior additions evidence assigned p with
    | none =>
      rw [Option.toList_none, List.append_nil]
      exact hadditions
    | some f =>
      obtain ⟨hnew, hedges⟩ := factOf_new hfact
      rw [Option.toList_some, List.filter_append]
      by_cases hvalid : f.isValid lib = true
      · rw [List.filter_cons_of_pos hvalid, List.filter_nil, ← List.append_assoc]
        refine hadditions.concat (fun hid => hnew ?_) fun id hid => ?_
        · rw [List.map_append, List.mem_append] at hid ⊢
          exact hid.imp_right fun hid => (List.filter_sublist.map _).subset hid
        · rw [List.map_append]
          exact List.mem_append_left _ (hedges id hid)
      · rw [List.filter_cons_of_neg hvalid, List.filter_nil, List.append_nil]
        exact hadditions

/-! ## The records of a note -/

/-- The records a note holds under its key. -/
structure Holds (lib : Library) (metadata : Option Value) (facts : List MemoryFact) : Prop where
  metadata : metadata = some (.list (facts.map MemoryFact.value)) ∨ metadata = none ∧ facts = []
  ordered : Ordered (facts.filter (·.isValid lib))

variable {metadata : Option Value} {original : Option Text} {facts : List MemoryFact}

theorem Holds.parse (h : Holds lib metadata facts) : parseMemoryFacts lib metadata = facts.filter (·.isValid lib) := by
  rcases h.metadata with hm | ⟨hm, hnil⟩
  · rw [hm, parseMemoryFacts_values]
  · rw [hm, hnil]
    rfl

/-- The records of a call, behind the ones that were there. -/
theorem Holds.newFacts (h : Holds lib (priorFacts lib original) facts) (proposals : List FactProposal)
    (evidence : MemoryEntry) (assigned : Text) :
    Ordered ((facts ++ newFacts lib original proposals evidence assigned).filter (·.isValid lib)) := by
  have hadd : Engine.newFacts lib original proposals evidence assigned =
      addFacts lib (parseMemoryFacts lib (priorFacts lib original)) evidence assigned proposals := by
    unfold Engine.newFacts
    rcases h.metadata with hprior | ⟨hprior, -⟩
    · rw [hprior]
    · rw [hprior]
      rfl
  rw [hadd, h.parse, List.filter_append]
  exact addFacts_ordered h.ordered evidence assigned proposals

/-- What is written under the key of the records. -/
theorem Holds.withFacts (h : Holds lib (priorFacts lib original) facts) (f : Frontmatter) (additions : List MemoryFact) :
    withFacts f (priorFacts lib original) additions =
      if facts ++ additions = [] then f.erase memoryFactsKey
      else f.erase memoryFactsKey ++ [(memoryFactsKey, .list ((facts ++ additions).map MemoryFact.value))] := by
  rcases h.metadata with hprior | ⟨hprior, hnil⟩
  · cases facts with
    | nil =>
      rw [hprior, List.nil_append, ← set_erase]
      rfl
    | cons fact facts =>
      rw [hprior, if_neg (by simp), ← set_erase, List.map_append]
      rfl
  · rw [hprior, hnil, List.nil_append, ← set_erase]
    rfl

variable {tail : Value → Value}

/-- The records of a frontmatter that is printed and read back. -/
theorem get_mapLast_facts (htail : ∀ v, LastText v (tail v)) {f : Frontmatter} (hkeys : (f.map (·.1)).Nodup)
    (facts : List MemoryFact) :
    ∃ facts', Reread facts facts' ∧
      ((Frontmatter.mapLast tail (if facts = [] then f.erase memoryFactsKey
        else f.erase memoryFactsKey ++ [(memoryFactsKey, .list (facts.map MemoryFact.value))])).get memoryFactsKey =
          some (.list (facts'.map MemoryFact.value)) ∨
        (Frontmatter.mapLast tail (if facts = [] then f.erase memoryFactsKey
          else f.erase memoryFactsKey ++ [(memoryFactsKey, .list (facts.map MemoryFact.value))])).get memoryFactsKey = none ∧
          facts' = []) := by
  by_cases hnil : facts = []
  · refine ⟨[], hnil ▸ .refl _, Or.inr ⟨?_, rfl⟩⟩
    rw [if_pos hnil, get_eq_none_iff, Frontmatter.mapLast_keys]
    exact get_eq_none_iff.1 (get_erase_self f _)
  · obtain ⟨facts', hreread, hvalue⟩ := (htail (.list (facts.map MemoryFact.value))).of_list
    refine ⟨facts', hreread, Or.inl ?_⟩
    rw [if_neg hnil, ← hvalue]
    have hwritten := set_keys (erase_keys hkeys memoryFactsKey) memoryFactsKey (.list (facts.map MemoryFact.value))
    rw [set_erase] at hwritten
    exact (get_mapLast_last tail hwritten List.getLast?_concat).2

theorem Reread.edges {facts facts' : List MemoryFact} (h : Reread facts facts') :
    (facts'.filter (·.isValid lib)).map (fun f => (f.id, f.supersedes)) =
      (facts.filter (·.isValid lib)).map fun f => (f.id, f.supersedes) := by
  cases h with
  | refl => rfl
  | last facts f quote =>
    rw [List.filter_append, List.filter_append, List.map_append, List.map_append]
    congr 1
    rw [List.filter_singleton, List.filter_singleton, isValid_reverified]
    cases f.isValid lib <;> rfl

/-- A note without text has no records. -/
theorem priorFacts_some (lib : Library) (raw : Text) :
    priorFacts lib (some raw) = (parseNote lib.yaml raw).frontmatter.bind (·.get memoryFactsKey) := by
  cases raw with
  | nil => rfl
  | cons c raw => rfl

/-- The records of a call, as they are read back. -/
theorem priorFacts_append (laws : lib.yaml.Lawful tail) {raw : Text} {f : Frontmatter}
    (hraw : (parseNote lib.yaml raw).frontmatter = some f) (original : Option Text) (proposals : List FactProposal)
    (evidence : MemoryEntry) (assigned : Text) :
    (f.map (·.1)).Nodup ∧ priorFacts lib (some (appendMemoryFacts lib raw original proposals evidence assigned)) =
      ((withFacts f (priorFacts lib original) (newFacts lib original proposals evidence assigned)).mapLast tail).get
        memoryFactsKey := by
  have hkeys : (f.map (·.1)).Nodup := by
    obtain ⟨before, behind, -, -, hparse⟩ := split_of_parseNote hraw
    exact laws.keys _ _ hparse
  rw [priorFacts_some, appendMemoryFacts_frontmatter laws hraw hkeys]
  exact ⟨hkeys, rfl⟩

/-- **The records of a note that started empty** are values of records, the valid ones in order. -/
theorem Kept.holds (laws : lib.yaml.Lawful tail) (htail : ∀ v, LastText v (tail v)) {note : Option Text}
    (h : Kept lib note) : ∃ facts, Holds lib (priorFacts lib note) facts := by
  induction h with
  | empty => exact ⟨[], Or.inr ⟨rfl, rfl⟩, Ordered.nil⟩
  | append h raw proposals evidence assigned ih =>
    rename_i original
    obtain ⟨facts, hfacts⟩ := ih
    cases hraw : (parseNote lib.yaml raw).frontmatter with
    | none =>
      have htext : appendMemoryFacts lib raw original proposals evidence assigned = raw := by
        unfold appendMemoryFacts
        simp only [hraw]
      refine ⟨[], Or.inr ⟨?_, rfl⟩, Ordered.nil⟩
      rw [htext, priorFacts_some, hraw]
      rfl
    | some f =>
      obtain ⟨hkeys, hread⟩ := priorFacts_append laws hraw original proposals evidence assigned
      generalize hadditions : newFacts lib original proposals evidence assigned = additions at hread
      obtain ⟨facts', hreread, hvalue⟩ := get_mapLast_facts htail hkeys (facts ++ additions)
      rw [hfacts.withFacts] at hread
      refine ⟨facts', ?_, ?_⟩
      · rw [hread]
        exact hvalue
      · have hordered := hfacts.newFacts proposals evidence assigned
        rw [hadditions] at hordered
        exact hordered.congr hreread.edges

end Zenod.Engine
