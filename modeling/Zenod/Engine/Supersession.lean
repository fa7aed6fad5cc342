/-
What a view of facts says (`projectFacts`): which facts are superseded, by
what, and where the chain of superseding facts ends.

`projectFacts_sound`: of the records of a note that started empty.
-/
import Mathlib.Order.WellFounded
import Zenod.Engine.Projection
import Zenod.Engine.Chronicle
import Zenod.Vault.YamlModel

namespace Zenod.Engine

open Text Vault
open Evidence (MemoryEntry Moment)

variable (lib : Library)

/-- The loops run over the fact: it was active before them. -/
def FactStatus.eligible : FactStatus → Bool
  | .active | .superseded | .conflict => true
  | .undated | .future | .unsupported => false

/-- Every edge of the fact's correction leads to a fact that the correction bears on. -/
def Revalidated (facts : List ViewFact) (fact : ViewFact) : Prop :=
  ∀ id ∈ fact.supersedes, ∃ target ∈ facts, target.id = id ∧ supportsCorrection lib fact.toMemoryFact target.toMemoryFact

/-- The first fact supersedes the second. -/
structure Supersedes (facts : List ViewFact) (fact target : ViewFact) : Prop where
  eligible : fact.status.eligible = true
  lists : target.id ∈ fact.supersedes
  other : fact.id ≠ target.id
  key : fact.key = target.key
  origin : fact.origin = target.origin
  resolved : fact.unresolvedCorrection = false
  revalidated : Revalidated lib facts fact
  named : target.id ∈ fact.supersedesIds.getD [] ∨ target.statement ∈ fact.supersedesQuotes
  notEarlier : predates fact.toMemoryFact target.toMemoryFact = false

/-- A persisted target is missing, or the correction does not bear on it. -/
def LosesEdge (facts : List ViewFact) (fact : ViewFact) : Prop :=
  ∃ id ∈ fact.supersedes, ∀ target ∈ facts, target.id = id →
    supportsCorrection lib fact.toMemoryFact target.toMemoryFact = false

/-- From a fact to one that supersedes it. -/
def Follows (facts : List ViewFact) (target fact : ViewFact) : Prop :=
  target ∈ facts ∧ fact ∈ facts ∧ Supersedes lib facts fact target

/-! ## Facts with ids of their own -/

variable {lib} {facts : List ViewFact}

theorem losesEdge_iff (hids : (facts.map (·.id)).Nodup) {fact : ViewFact} :
    losesEdge lib facts fact = true ↔ LosesEdge lib facts fact := by
  unfold losesEdge LosesEdge
  rw [List.any_eq_true]
  refine exists_congr fun id => and_congr_right fun _ => ?_
  cases hfind : facts.find? (·.id = id) with
  | none =>
    rw [List.find?_eq_none] at hfind
    refine ⟨fun _ target htarget hid => absurd (decide_eq_true hid) (hfind target htarget), fun _ => rfl⟩
  | some found =>
    have hid := List.find?_some hfind
    rw [decide_eq_true_eq] at hid
    have hmem := List.mem_of_find?_eq_some hfind
    simp only [Bool.not_eq_true']
    constructor
    · intro h target htarget htid
      rwa [List.inj_on_of_nodup_map hids htarget hmem (htid.trans hid.symm)]
    · exact fun h => h found hmem hid

theorem revalidated_iff {fact : ViewFact} (hids : (facts.map (·.id)).Nodup) :
    Revalidated lib facts fact ↔ losesEdge lib facts fact = false := by
  rw [← Bool.not_eq_true, losesEdge_iff hids]
  unfold Revalidated LosesEdge
  push Not
  simp only [ne_eq, Bool.not_eq_false]

/-- A correction that is revalidated bears on each fact it lists. -/
theorem Revalidated.supports (hids : (facts.map (·.id)).Nodup) {fact target : ViewFact} (h : Revalidated lib facts fact)
    (htarget : target ∈ facts) (hlists : target.id ∈ fact.supersedes) :
    supportsCorrection lib fact.toMemoryFact target.toMemoryFact = true := by
  obtain ⟨found, hfound, hid, hsupports⟩ := h _ hlists
  rwa [List.inj_on_of_nodup_map hids hfound htarget hid] at hsupports

/-- What is asked of a fact that supersedes another, before the loops. -/
theorem corrects_iff (hids : (facts.map (·.id)).Nodup) {fact target : ViewFact} (htarget : target ∈ facts) :
    corrects lib facts fact target = true ↔ fact.status = .active ∧ target.id ∈ fact.supersedes ∧ fact.id ≠ target.id ∧
      fact.key = target.key ∧ fact.origin = target.origin ∧ fact.unresolvedCorrection = false ∧ Revalidated lib facts fact ∧
      (target.id ∈ fact.supersedesIds.getD [] ∨ target.statement ∈ fact.supersedesQuotes) ∧
      predates fact.toMemoryFact target.toMemoryFact = false := by
  have hpass : passesOver lib fact.unresolvedCorrection fact target = false ↔ fact.unresolvedCorrection = false ∧
      target.id ∈ fact.supersedes ∧ fact.id ≠ target.id ∧ fact.key = target.key ∧ fact.origin = target.origin ∧
      supportsCorrection lib fact.toMemoryFact target.toMemoryFact = true ∧
      (target.id ∈ fact.supersedesIds.getD [] ∨ target.statement ∈ fact.supersedesQuotes) ∧
      predates fact.toMemoryFact target.toMemoryFact = false := by
    unfold passesOver
    simp only [Bool.or_eq_false_iff, Bool.not_eq_false', List.contains_iff_mem, beq_eq_false_iff_ne, bne_eq_false_iff_eq,
      Bool.and_eq_false_iff, and_assoc, ne_eq]
  rw [revalidated_iff hids, corrects, Bool.and_eq_true, Bool.and_eq_true, decide_eq_true_eq, Bool.not_eq_true',
    Bool.not_eq_true', hpass]
  constructor
  · rintro ⟨⟨hactive, hedges⟩, hresolved, hlists, hother, hkey, horigin, -, hnamed, hdates⟩
    exact ⟨hactive, hlists, hother, hkey, horigin, hresolved, hedges, hnamed, hdates⟩
  · rintro ⟨hactive, hlists, hother, hkey, horigin, hresolved, hedges, hnamed, hdates⟩
    have hsupports := ((revalidated_iff hids).2 hedges).supports hids htarget hlists
    exact ⟨⟨hactive, hedges⟩, hresolved, hlists, hother, hkey, horigin, hsupports, hnamed, hdates⟩

/-! ## Before and after the loops -/

/-- Facts whose status is as their evidence has it. -/
structure Unsettled (facts : List ViewFact) : Prop where
  ids : (facts.map (·.id)).Nodup
  status : ∀ fact ∈ facts, fact.status ≠ .superseded ∧ fact.status ≠ .conflict

theorem isSuperseded_iff {fact : ViewFact} :
    isSuperseded lib facts fact = true ↔ fact.status = .active ∧ ∃ f ∈ facts, corrects lib facts f fact = true := by
  unfold isSuperseded
  rw [Bool.and_eq_true, decide_eq_true_eq, List.any_eq_true]

theorem Unsettled.superseded_iff (h : Unsettled facts) {fact : ViewFact} (hfact : fact ∈ facts) :
    (settledFact lib facts fact).status = .superseded ↔ isSuperseded lib facts fact = true := by
  show settledStatus lib facts fact = .superseded ↔ _
  unfold settledStatus
  by_cases hactive : fact.status = .active
  · rw [if_neg (not_not.2 hactive)]
    cases isSuperseded lib facts fact
    · rw [if_neg Bool.false_ne_true]
      split <;> decide
    · exact iff_of_true (if_pos rfl) rfl
  · rw [if_pos hactive, isSuperseded_iff]
    exact iff_of_false (h.status fact hfact).1 fun hnot => hactive hnot.1

theorem Unsettled.eligible_iff (h : Unsettled facts) {fact : ViewFact} (hfact : fact ∈ facts) :
    (settledFact lib facts fact).status.eligible = true ↔ fact.status = .active := by
  show (settledStatus lib facts fact).eligible = true ↔ _
  unfold settledStatus
  by_cases hactive : fact.status = .active
  · rw [if_neg (not_not.2 hactive)]
    refine iff_of_true ?_ hactive
    split
    next => rfl
    next => split <;> rfl
  · rw [if_pos hactive]
    refine iff_of_false ?_ hactive
    obtain ⟨hsuperseded, hconflict⟩ := h.status fact hfact
    cases hstatus : fact.status with
    | active => exact absurd hstatus hactive
    | superseded => exact absurd hstatus hsuperseded
    | conflict => exact absurd hstatus hconflict
    | undated => decide
    | future => decide
    | unsupported => decide

theorem revalidated_settled {fact : ViewFact} :
    Revalidated lib (facts.map (settledFact lib facts)) (settledFact lib facts fact) ↔ Revalidated lib facts fact := by
  unfold Revalidated
  simp only [List.mem_map, exists_exists_and_eq_and]
  rfl

theorem losesEdge_settled {fact : ViewFact} :
    LosesEdge lib (facts.map (settledFact lib facts)) (settledFact lib facts fact) ↔ LosesEdge lib facts fact := by
  unfold LosesEdge
  simp only [List.forall_mem_map]
  rfl

/-- The facts of a view supersede each other as the loops had them. -/
theorem Unsettled.supersedes_iff (h : Unsettled facts) {fact target : ViewFact} (hfact : fact ∈ facts)
    (htarget : target ∈ facts) :
    Supersedes lib (facts.map (settledFact lib facts)) (settledFact lib facts fact) (settledFact lib facts target) ↔
      corrects lib facts fact target = true := by
  rw [corrects_iff h.ids htarget]
  constructor
  · rintro ⟨heligible, hlists, hother, hkey, horigin, hresolved, hedges, hnamed, hdates⟩
    have hresolved : leftUnresolved lib facts fact = false := hresolved
    rw [leftUnresolved, Bool.or_eq_false_iff] at hresolved
    exact ⟨(h.eligible_iff hfact).1 heligible, hlists, hother, hkey, horigin, hresolved.1, revalidated_settled.1 hedges, hnamed,
      hdates⟩
  · rintro ⟨hactive, hlists, hother, hkey, horigin, hresolved, hedges, hnamed, hdates⟩
    refine ⟨(h.eligible_iff hfact).2 hactive, hlists, hother, hkey, horigin, ?_, revalidated_settled.2 hedges, hnamed, hdates⟩
    show leftUnresolved lib facts fact = false
    rw [leftUnresolved, hresolved, (revalidated_iff h.ids).1 hedges, Bool.and_false, Bool.or_false]

/-! ## The view -/

/-- **No two facts that stay active** say different things. -/
theorem Unsettled.active_statement (h : Unsettled facts) {f g : ViewFact} (hf : f ∈ facts) (hg : g ∈ facts)
    (hfactive : (settledFact lib facts f).status = .active) (hgactive : (settledFact lib facts g).status = .active)
    (hkey : f.key = g.key) (horigin : f.origin = g.origin) : f.statement = g.statement := by
  have hstays : ∀ x, (settledFact lib facts x).status = .active →
      x.status = .active ∧ isSuperseded lib facts x = false ∧ isDisputed lib facts x = false := by
    intro x hx
    have hx : settledStatus lib facts x = .active := hx
    unfold settledStatus at hx
    split at hx
    next hnot => exact absurd hx hnot
    next hactive =>
      split at hx
      next => cases hx
      next hsuperseded =>
        split at hx
        next => cases hx
        next hconflict =>
          simp only [Bool.or_eq_true, not_or, Bool.not_eq_true] at hconflict
          exact ⟨not_not.1 hactive, by simpa using hsuperseded, hconflict.2⟩
  obtain ⟨-, -, hundisputed⟩ := hstays f hfactive
  obtain ⟨hactive, hcurrent, -⟩ := hstays g hgactive
  by_contra hstatement
  have hid : g.id ≠ f.id := fun hid => hstatement (by rw [List.inj_on_of_nodup_map h.ids hg hf hid])
  unfold isDisputed at hundisputed
  rw [List.any_eq_false] at hundisputed
  refine hundisputed g hg ?_
  simp [hactive, hid, hcurrent, hkey, horigin, Ne.symm hstatement]

/-- **A fact is superseded** if and only if a fact of the view supersedes it. -/
theorem Unsettled.view_superseded_iff (h : Unsettled facts) {target : ViewFact}
    (htarget : target ∈ facts.map (settledFact lib facts)) :
    target.status = .superseded ↔ target.status.eligible = true ∧
      ∃ fact ∈ facts.map (settledFact lib facts), Supersedes lib (facts.map (settledFact lib facts)) fact target := by
  obtain ⟨g, hg, rfl⟩ := List.mem_map.1 htarget
  rw [h.superseded_iff hg, h.eligible_iff hg, isSuperseded_iff]
  refine and_congr_right fun _ => ?_
  constructor
  · rintro ⟨f, hf, hcorrects⟩
    exact ⟨_, List.mem_map_of_mem hf, (h.supersedes_iff hf hg).2 hcorrects⟩
  · rintro ⟨_, hfact, hsupersedes⟩
    obtain ⟨f, hf, rfl⟩ := List.mem_map.1 hfact
    exact ⟨f, hf, (h.supersedes_iff hf hg).1 hsupersedes⟩

/-- **A fact that loses an edge** has no effect on the others in its turn. -/
theorem LosesEdge.turn {fact : ViewFact} (h : LosesEdge lib facts fact) (hids : (facts.map (·.id)).Nodup)
    (eligible : List (ViewFact × Nat)) (m : Marks) (i : Nat) :
    (applyCorrection lib facts eligible m (fact, i)).status = m.status := by
  unfold applyCorrection
  simp only [(losesEdge_iff hids).2 h, if_true]
  obtain ⟨-, hstatus⟩ := @foldl_targets lib eligible (m.leaveUnresolved i) fact i
  funext j
  rw [hstatus j, if_neg]
  · rfl
  · rintro ⟨target, -, -, hpass⟩
    have hmark : (m.leaveUnresolved i).unresolved i = true := Function.update_self ..
    rw [hmark] at hpass
    cases hpass

/-! ## The order of the facts -/

theorem losesEdge_perm (hids : (facts.map (·.id)).Nodup) {facts' : List ViewFact} (h : facts'.Perm facts) (fact : ViewFact) :
    losesEdge lib facts' fact = losesEdge lib facts fact := by
  have hids' : (facts'.map (·.id)).Nodup := (h.map _).nodup_iff.2 hids
  rw [Bool.eq_iff_iff, losesEdge_iff hids', losesEdge_iff hids]
  unfold LosesEdge
  simp only [h.mem_iff]

/-- **What the loops leave** does not depend on the order of the facts. -/
theorem settledFact_perm (hids : (facts.map (·.id)).Nodup) {facts' : List ViewFact} (h : facts'.Perm facts) (fact : ViewFact) :
    settledFact lib facts' fact = settledFact lib facts fact := by
  have hcorrects : ∀ f g, corrects lib facts' f g = corrects lib facts f g := by
    intro f g
    rw [corrects, corrects, losesEdge_perm hids h]
  have hsuperseded : ∀ f, isSuperseded lib facts' f = isSuperseded lib facts f := by
    intro f
    rw [isSuperseded, isSuperseded, h.any_eq]
    simp only [hcorrects]
  have hdisputed : ∀ f, isDisputed lib facts' f = isDisputed lib facts f := by
    intro f
    rw [isDisputed, isDisputed, h.any_eq]
    simp only [hsuperseded]
  have hunresolved : ∀ f, leftUnresolved lib facts' f = leftUnresolved lib facts f := by
    intro f
    rw [leftUnresolved, leftUnresolved, losesEdge_perm hids h]
  simp only [settledFact, settledStatus, hsuperseded, hdisputed, hunresolved]

/-! ## The records of a view -/

theorem bounded_sublist (count bytes : Nat) (selected : List (MemoryFact × Value)) :
    (bounded count bytes selected).Sublist (selected.map (·.1)) := by
  induction selected generalizing count bytes with
  | nil => exact List.Sublist.refl _
  | cons r selected ih =>
    unfold bounded
    simp only []
    split
    next => exact List.nil_sublist _
    next => exact (ih _ _).cons_cons _

/-- Records that fit are all there. -/
theorem bounded_eq (count bytes : Nat) (selected : List (MemoryFact × Value)) (hcount : count + selected.length ≤ 32)
    (hbytes : bytes + (selected.map fun r => utf16Length r.2.json).sum ≤ 24000) :
    bounded count bytes selected = selected.map (·.1) := by
  induction selected generalizing count bytes with
  | nil => rfl
  | cons r selected ih =>
    rw [List.length_cons] at hcount
    rw [List.map_cons, List.sum_cons] at hbytes
    unfold bounded
    rw [if_neg (by omega), List.map_cons, ih _ _ (by omega) (by omega)]

theorem records_map (lib : Library) (metadata : Option Value) :
    (records lib metadata).map (·.1) = parseMemoryFacts lib metadata := by
  have hlist : ∀ items : List Value, (records lib (some (.list items))).map (·.1) = items.filterMap (readFact lib) := by
    intro items
    show List.map _ (items.filterMap _) = _
    rw [List.map_filterMap]
    refine List.filterMap_congr fun v _ => ?_
    cases readFact lib v <;> rfl
  cases metadata with
  | none => rfl
  | some v =>
    cases v with
    | list items => exact hlist items
    | _ => rfl

variable (lib) in
/-- The records of a query fit the budget of a view. -/
def FitsBudget (input : FactReadInput) (metadata : Option Value) : Prop :=
  (selectedRecords lib input metadata).length ≤ 32 ∧
    ((selectedRecords lib input metadata).map fun r => utf16Length r.2.json).sum ≤ 24000

theorem selectedRecords_perm (input : FactReadInput) {items items' : List Value} (h : items'.Perm items) :
    (selectedRecords lib input (some (.list items'))).Perm (selectedRecords lib input (some (.list items))) :=
  (h.filterMap _).filter _

variable {input : FactReadInput} {metadata : Option Value} {now : Moment} {readEvidence : Text → Option CatalogEntry}

theorem initialFacts_perm {items items' : List Value} (h : items'.Perm items) (hfits : FitsBudget lib input (some (.list items))) :
    (initialFacts lib input (some (.list items')) now readEvidence).Perm
      (initialFacts lib input (some (.list items)) now readEvidence) := by
  have hselected := @selectedRecords_perm lib input _ _ h
  obtain ⟨hcount, hbytes⟩ := hfits
  have hcount' := hselected.length_eq.trans_le hcount
  have hbytes' := (hselected.map fun r => utf16Length r.2.json).sum_nat.trans_le hbytes
  unfold initialFacts
  rw [bounded_eq 0 0 _ (by omega) (by omega), bounded_eq 0 0 _ (by omega) (by omega)]
  exact (hselected.map _).map _

/-- A fact of a view is a record the note holds. -/
theorem exists_record {fact : ViewFact} (h : fact ∈ initialFacts lib input metadata now readEvidence) :
    ∃ r ∈ parseMemoryFacts lib metadata, r.id = fact.id ∧ r.supersedes = fact.supersedes := by
  obtain ⟨r, hr, rfl⟩ := List.mem_map.1 h
  refine ⟨r, ?_, rfl, rfl⟩
  rw [← records_map]
  exact (List.filter_sublist.map _).subset ((bounded_sublist 0 0 _).subset hr)

theorem initialStatus_ne (asOf : Text) (mode : ViewMode) (supported : Bool) (fact : MemoryFact) :
    initialStatus asOf mode supported fact ≠ .superseded ∧ initialStatus asOf mode supported fact ≠ .conflict := by
  unfold initialStatus
  split
  next => decide
  next =>
    split
    next => decide
    next => split <;> decide

theorem initialFacts_unsettled (hids : ((parseMemoryFacts lib metadata).map (·.id)).Nodup) :
    Unsettled (initialFacts lib input metadata now readEvidence) where
  ids := by
    have hsublist : (bounded 0 0 (selectedRecords lib input metadata)).Sublist (parseMemoryFacts lib metadata) := by
      rw [← records_map]
      exact (bounded_sublist 0 0 _).trans (List.filter_sublist.map _)
    unfold initialFacts
    rw [List.map_map]
    exact hids.sublist (hsublist.map _)
  status fact hfact := by
    obtain ⟨r, -, rfl⟩ := List.mem_map.1 hfact
    exact initialStatus_ne _ _ _ r

/-! ## Following superseding facts -/

/-- A record stands behind the ones it supersedes. -/
theorem Ordered.idxOf_lt {records : List MemoryFact} (h : Ordered records) {r : MemoryFact} (hr : r ∈ records) {id : Text}
    (hid : id ∈ r.supersedes) : (records.map (·.id)).idxOf id < (records.map (·.id)).idxOf r.id := by
  obtain ⟨pre, post, rfl⟩ := List.append_of_mem hr
  have hearlier := h.earlier pre r post rfl id hid
  have hnot : r.id ∉ pre.map (·.id) := by
    have hnodup := h.nodup
    rw [List.map_append, List.map_cons, List.nodup_append] at hnodup
    exact fun hmem => hnodup.2.2 _ hmem _ List.mem_cons_self rfl
  rw [List.map_append, List.map_cons, List.idxOf_append_of_mem hearlier, List.idxOf_append_of_notMem hnot, List.idxOf_cons_self,
    Nat.add_zero]
  exact List.idxOf_lt_length_of_mem hearlier

/-- A superseding fact stands behind the fact it supersedes. -/
theorem Follows.idxOf_lt (hrecords : Ordered (parseMemoryFacts lib metadata)) {f g : ViewFact}
    (h : Follows lib (settle lib (initialFacts lib input metadata now readEvidence)) f g) :
    ((parseMemoryFacts lib metadata).map (·.id)).idxOf f.id < ((parseMemoryFacts lib metadata).map (·.id)).idxOf g.id := by
  rw [settle_eq] at h
  obtain ⟨-, hg, hsupersedes⟩ := h
  obtain ⟨initial, hinitial, rfl⟩ := List.mem_map.1 hg
  obtain ⟨r, hr, hid, hedges⟩ := exists_record hinitial
  have hlisted : f.id ∈ r.supersedes := by
    rw [hedges]
    exact hsupersedes.lists
  have hlt := hrecords.idxOf_lt hr hlisted
  rwa [hid] at hlt

/-- **Superseding facts** are not followed for ever. -/
theorem follows_wellFounded (hrecords : Ordered (parseMemoryFacts lib metadata)) :
    WellFounded fun g f => Follows lib (settle lib (initialFacts lib input metadata now readEvidence)) f g := by
  let ids := (parseMemoryFacts lib metadata).map (·.id)
  refine Subrelation.wf (fun {g f} h => ?_) (measure fun f : ViewFact => ids.length - ids.idxOf f.id).wf
  have hlt := h.idxOf_lt hrecords
  have hlength : ids.idxOf f.id < ids.length := hlt.trans_le List.idxOf_le_length
  show ids.length - ids.idxOf g.id < ids.length - ids.idxOf f.id
  have hlt : ids.idxOf f.id < ids.idxOf g.id := hlt
  omega

theorem exists_end {r : ViewFact → ViewFact → Prop} (hwf : WellFounded fun g f => r f g) {P : ViewFact → Prop}
    (hnext : ∀ f, P f → ∃ g, r f g) (f : ViewFact) (h : P f) : ∃ g, ¬P g ∧ Relation.TransGen r f g := by
  induction f using hwf.induction with
  | _ f ih =>
    obtain ⟨g, hg⟩ := hnext f h
    by_cases hP : P g
    · obtain ⟨last, hlast, hpath⟩ := ih g hg hP
      exact ⟨last, hlast, Relation.TransGen.head hg hpath⟩
    · exact ⟨g, hP, Relation.TransGen.single hg⟩

/-! ## The view of a query -/

/-- A view is refused for its date only. -/
theorem exists_view (hvalid : input.asOf.any (validFactDate · = false) = false) :
    ∃ view, projectFacts lib input metadata now readEvidence = .ok view ∧
      view.facts = settle lib (initialFacts lib input metadata now readEvidence) := by
  unfold projectFacts
  rw [hvalid]
  exact ⟨_, rfl, rfl⟩

theorem projectFacts_facts {view : FactView} (h : projectFacts lib input metadata now readEvidence = .ok view) :
    input.asOf.any (validFactDate · = false) = false ∧
      view.facts = settle lib (initialFacts lib input metadata now readEvidence) := by
  cases hvalid : input.asOf.any (validFactDate · = false) with
  | false =>
    obtain ⟨view', hview', hfacts⟩ := @exists_view lib input metadata now readEvidence hvalid
    obtain rfl : view' = view := Except.ok.inj (hview'.symm.trans h)
    exact ⟨rfl, hfacts⟩
  | true =>
    have herror : projectFacts lib input metadata now readEvidence = .error invalidAsOf := by
      unfold projectFacts
      rw [hvalid]
      rfl
    rw [herror] at h
    cases h

/-- **The view of the records of a note that started empty.** Facts that stay active do not say different things. A fact is
superseded by an eligible one of its key and origin whose correction is revalidated, and the facts that supersede it and
each other end in one that is not. A fact that loses an edge supersedes nothing. And the view has the same facts in any
order of the records, if they fit. -/
theorem projectFacts_sound {tail : Value → Value} (laws : lib.yaml.Lawful tail) (htail : ∀ v, LastText v (tail v))
    {note : Option Text} (hnote : Kept lib note) {view : FactView}
    (hview : projectFacts lib input (priorFacts lib note) now readEvidence = .ok view) :
    (∀ f ∈ view.facts, ∀ g ∈ view.facts, f.status = .active → g.status = .active → f.key = g.key → f.origin = g.origin →
      f.statement = g.statement) ∧
    (∀ g ∈ view.facts, g.status = .superseded ↔
      g.status.eligible = true ∧ ∃ f ∈ view.facts, Supersedes lib view.facts f g) ∧
    (∀ s : Nat → ViewFact, ¬∀ n, Follows lib view.facts (s n) (s (n + 1))) ∧
    (∀ g ∈ view.facts, g.status = .superseded →
      ∃ f ∈ view.facts, f.status ≠ .superseded ∧ Relation.TransGen (Follows lib view.facts) g f) ∧
    (∀ f ∈ view.facts, LosesEdge lib view.facts f → (f.status.eligible = true → f.unresolvedCorrection = true) ∧
      ∀ g ∈ view.facts, g.status = .superseded → ∃ other ∈ view.facts, other.id ≠ f.id ∧ Supersedes lib view.facts other g) ∧
    (∀ f i, (initialFacts lib input (priorFacts lib note) now readEvidence)[i]? = some f →
      LosesEdge lib (initialFacts lib input (priorFacts lib note) now readEvidence) f → ∀ eligible m,
        (applyCorrection lib (initialFacts lib input (priorFacts lib note) now readEvidence) eligible m (f, i)).status =
          m.status) ∧
    (∀ items items', priorFacts lib note = some (.list items) → items'.Perm items → FitsBudget lib input (priorFacts lib note) →
      ∃ view', projectFacts lib input (some (.list items')) now readEvidence = .ok view' ∧
        view'.facts.Perm view.facts) := by
  obtain ⟨facts, hfacts⟩ := hnote.holds laws htail
  have hrecords : Ordered (parseMemoryFacts lib (priorFacts lib note)) := by
    rw [hfacts.parse]
    exact hfacts.ordered
  have hunsettled := @initialFacts_unsettled lib input (priorFacts lib note) now readEvidence hrecords.nodup
  have hwf := @follows_wellFounded lib input (priorFacts lib note) now readEvidence hrecords
  obtain ⟨hvalid, hsettle⟩ := projectFacts_facts hview
  rw [← hsettle] at hwf
  rw [settle_eq] at hsettle
  generalize hinitial : initialFacts lib input (priorFacts lib note) now readEvidence = initial at hunsettled hsettle
  have hsuperseded : ∀ g ∈ view.facts, g.status = .superseded ↔
      g.status.eligible = true ∧ ∃ f ∈ view.facts, Supersedes lib view.facts f g := by
    rw [hsettle]
    exact fun g hg => hunsettled.view_superseded_iff hg
  have hnext : ∀ g, (g ∈ view.facts ∧ g.status = .superseded) → ∃ f, Follows lib view.facts g f := by
    rintro g ⟨hg, hstatus⟩
    obtain ⟨-, f, hf, hfollows⟩ := (hsuperseded g hg).1 hstatus
    exact ⟨f, hg, hf, hfollows⟩
  refine ⟨?_, hsuperseded, ?_, ?_, ?_, ?_, ?_⟩
  · rw [hsettle]
    intro f hf g hg hfactive hgactive hkey horigin
    obtain ⟨f₀, hf₀, rfl⟩ := List.mem_map.1 hf
    obtain ⟨g₀, hg₀, rfl⟩ := List.mem_map.1 hg
    show f₀.statement = g₀.statement
    exact hunsettled.active_statement hf₀ hg₀ hfactive hgactive hkey horigin
  · intro s hs
    exact (wellFounded_iff_isEmpty_descending_chain.1 hwf).false ⟨s, hs⟩
  · intro g hg hstatus
    obtain ⟨f, hf, hpath⟩ := exists_end hwf hnext g ⟨hg, hstatus⟩
    have hmem : f ∈ view.facts := by
      obtain ⟨_, -, hlast⟩ := Relation.TransGen.tail'_iff.1 hpath
      exact hlast.2.1
    exact ⟨f, hmem, fun hsup => hf ⟨hmem, hsup⟩, hpath⟩
  · intro f hf hloses
    have hunresolved : f.status.eligible = true → f.unresolvedCorrection = true := by
      rw [hsettle] at hf hloses
      obtain ⟨f₀, hf₀, rfl⟩ := List.mem_map.1 hf
      intro heligible
      show leftUnresolved lib initial f₀ = true
      rw [leftUnresolved, (losesEdge_iff hunsettled.ids).2 (losesEdge_settled.1 hloses),
        decide_eq_true ((hunsettled.eligible_iff hf₀).1 heligible), Bool.and_true, Bool.or_true]
    refine ⟨hunresolved, fun g hg hstatus => ?_⟩
    obtain ⟨-, other, hother, hsupersedes⟩ := (hsuperseded g hg).1 hstatus
    refine ⟨other, hother, fun hid => ?_, hsupersedes⟩
    -- The other would be the fact itself, and is not left unresolved.
    have hids : (view.facts.map (·.id)).Nodup := by
      rw [hsettle, List.map_map]
      exact hunsettled.ids
    obtain rfl := List.inj_on_of_nodup_map hids hother hf hid
    exact Bool.false_ne_true (hsupersedes.resolved.symm.trans (hunresolved hsupersedes.eligible))
  · intro f i _ hloses eligible m
    exact hloses.turn hunsettled.ids eligible m i
  · intro items items' hitems hperm hfits
    obtain ⟨view', hview', hfacts'⟩ := @exists_view lib input (some (.list items')) now readEvidence hvalid
    refine ⟨view', hview', ?_⟩
    rw [hitems] at hfits hinitial
    have hreordered := @initialFacts_perm lib input now readEvidence _ _ hperm hfits
    rw [hinitial] at hreordered
    rw [hfacts', hsettle, settle_eq, List.map_congr_left fun f _ => settledFact_perm hunsettled.ids hreordered f]
    exact hreordered.map _

/-! ## Two reports -/

def blueReport : CatalogEntry where
  evidenceRef := "Log/2026-01-02.md#^e-0a1b2c".toList
  path := "Log/2026-01-02.md".toList
  anchor := "e-0a1b2c".toList
  title := "Sky".toList
  content := "The sky is blue.".toList
  source := .telegram
  verbatim := true
  contentType := none
  capturedAt := "2026-01-02T10:00:00.000Z".toList
  sourceId := none
  url := []
  provider := .github
  revisionId := none
  githubUrl := none

def greyReport : CatalogEntry := { blueReport with
  evidenceRef := "Log/2026-01-03.md#^e-0a1b2d".toList
  path := "Log/2026-01-03.md".toList
  anchor := "e-0a1b2d".toList
  content := "Replace \"The sky is blue.\" with \"The sky is grey.\"".toList
  capturedAt := "2026-01-03T10:00:00.000Z".toList }

def blueProposal : FactProposal where
  key := "sky".toList
  statement := "The sky is blue.".toList
  effectiveDate := none
  effectiveDateQuote := none
  correctionQuote := none
  supersedesQuotes := []
  verificationQuote := none

def greyProposal : FactProposal := { blueProposal with
  statement := "The sky is grey.".toList
  correctionQuote := some greyReport.content
  supersedesQuotes := ["The sky is blue.".toList] }

def blueFact : MemoryFact := { blueProposal with
  id := "70a8d1721f7b5e9240cc".toList
  evidenceRef := blueReport.evidenceRef
  evidenceDate := some blueReport.capturedAt
  origin := .userReport
  supersedes := []
  unresolvedCorrection := false }

def greyFact : MemoryFact := { greyProposal with
  id := "974c5024067d296536f1".toList
  evidenceRef := greyReport.evidenceRef
  evidenceDate := some greyReport.capturedAt
  origin := .userReport
  supersedes := [blueFact.id]
  unresolvedCorrection := false }

/-- The lines of a record of the note. -/
def recordLines (f : MemoryFact) (correction quotes targets : List String) : List Text :=
  ["  - id: ".toList ++ f.id, "    key: ".toList ++ f.key, "    statement: ".toList ++ f.statement,
    "    evidenceRef: ".toList ++ f.evidenceRef, "    evidenceDate: ".toList ++ f.evidenceDate.getD [],
    "    effectiveDate: null".toList, "    effectiveDateQuote: null".toList] ++
    (correction ++ quotes ++ targets).map String.toList ++
    ["    unresolvedCorrection: false".toList, "    origin: user_report".toList, "    verificationQuote: null".toList]

def blueLines : List Text :=
  recordLines blueFact ["    correctionQuote: null"] ["    supersedesQuotes: []"] ["    supersedes: []"]

def greyLines : List Text :=
  recordLines greyFact ["    correctionQuote: Replace \"The sky is blue.\" with \"The sky is grey.\""]
    ["    supersedesQuotes:", "      - The sky is blue."] ["    supersedes:", "      - 70a8d1721f7b5e9240cc"]

def skyFrontmatter (facts : List MemoryFact) : Frontmatter :=
  [("title".toList, .str "Sky".toList), (memoryFactsKey, .list (facts.map MemoryFact.value))]

/-- The frontmatter of the note before any report, and behind each, with what YAML prints for it. -/
def skyPages : List (Frontmatter × Text) :=
  [([("title".toList, .str "Sky".toList)], "title: Sky\n".toList),
    (skyFrontmatter [blueFact], terminated (["title: Sky".toList, "memoryFacts:".toList] ++ blueLines)),
    (skyFrontmatter [blueFact, greyFact], terminated (["title: Sky".toList, "memoryFacts:".toList] ++ blueLines ++ greyLines))]

theorem skyPages_valid : Pages skyPages where
  closed := by
    show ∀ p ∈ skyPages, ¬closing <:+: '\n' :: trimEnd p.2
    decide +kernel
  keys := by decide +kernel
  last := by
    intro p hp
    simp only [skyPages, List.mem_cons, List.not_mem_nil, or_false] at hp
    rcases hp with rfl | rfl | rfl <;> rfl
  head := by decide +kernel
  texts := by decide +kernel

/-- The hashes of the two records. -/
def skyHashes : List (Text × Text) :=
  [("[\"Log/2026-01-02.md#^e-0a1b2c\",\"sky\",\"The sky is blue.\"]".toList,
      "70a8d1721f7b5e9240cc4e29e03c9c18d73701d0d1c94c9d92f2be81a73127d2".toList),
    ("[\"Log/2026-01-03.md#^e-0a1b2d\",\"sky\",\"The sky is grey.\"]".toList,
      "974c5024067d296536f1b309bb1e5dea75ce3542789b9c5f8ddeb4e1b705630e".toList)]

noncomputable def skyLibrary : Library where
  yaml := pageYaml skyPages
  unicode := .ascii
  toLowerCase t := t.map Char.toLower
  sha256 t := ((skyHashes.find? (·.1 = t)).map (·.2)).getD []
  isDate _ := true

theorem blue_added : newFacts skyLibrary none [blueProposal] blueReport.toMemoryEntry blueReport.content = [blueFact] := by
  decide +kernel

theorem grey_added : addFacts skyLibrary [blueFact] greyReport.toMemoryEntry greyReport.content [greyProposal] = [greyFact] := by
  decide +kernel

/-- The note behind the first report, and behind both. -/
noncomputable def blueNote : Text :=
  appendMemoryFacts skyLibrary "---\ntitle: Sky\n---\nHello\n".toList none [blueProposal] blueReport.toMemoryEntry
    blueReport.content

noncomputable def greyNote : Text :=
  appendMemoryFacts skyLibrary blueNote (some blueNote) [greyProposal] greyReport.toMemoryEntry greyReport.content

theorem skyLibrary_lawful : skyLibrary.yaml.Lawful lastRead := pageYaml_lawful skyPages_valid

theorem blueNote_frontmatter : (parseNote skyLibrary.yaml blueNote).frontmatter = some (skyFrontmatter [blueFact]) := by
  have hraw : (parseNote skyLibrary.yaml "---\ntitle: Sky\n---\nHello\n".toList).frontmatter =
      some [("title".toList, .str "Sky".toList)] := rfl
  have hread := appendMemoryFacts_frontmatter skyLibrary_lawful hraw (List.nodup_singleton _) none [blueProposal]
    blueReport.toMemoryEntry blueReport.content
  rw [blue_added] at hread
  exact hread

theorem greyNote_facts : priorFacts skyLibrary (some greyNote) = some (.list ([blueFact, greyFact].map MemoryFact.value)) := by
  have hprior : priorFacts skyLibrary (some blueNote) = some (.list ([blueFact].map MemoryFact.value)) := by
    rw [priorFacts_some, blueNote_frontmatter]
    rfl
  have hadded : newFacts skyLibrary (some blueNote) [greyProposal] greyReport.toMemoryEntry greyReport.content = [greyFact] := by
    unfold newFacts
    rw [hprior]
    show addFacts skyLibrary (parseMemoryFacts skyLibrary (some (.list ([blueFact].map MemoryFact.value)))) _ _ _ = _
    rw [parseMemoryFacts_values]
    exact grey_added
  obtain ⟨-, hread⟩ := priorFacts_append skyLibrary_lawful blueNote_frontmatter (some blueNote) [greyProposal]
    greyReport.toMemoryEntry greyReport.content
  rw [hprior, hadded] at hread
  exact hread

theorem lastText_lastRead (v : Value) : LastText v (lastRead v) := by
  unfold lastRead
  split
  next t =>
    split
    next => exact .str _ _
    next => exact .refl _
  next => exact .refl _

def readReport (ref : Text) : Option CatalogEntry := [blueReport, greyReport].find? (·.evidenceRef = ref)

/-- The second report supersedes the first. -/
theorem greyNote_view : ∃ view,
    projectFacts skyLibrary { path := "Notes/Sky.md".toList } (priorFacts skyLibrary (some greyNote)) Moment.sample readReport =
        .ok view ∧
      view.facts.map (fun f => (f.statement, f.status)) =
        [("The sky is blue.".toList, .superseded), ("The sky is grey.".toList, .active)] ∧
      ∀ g ∈ view.facts, g.status = .superseded → ∃ f ∈ view.facts, f.status ≠ .superseded ∧
        Relation.TransGen (Follows skyLibrary view.facts) g f := by
  have hnote : Kept skyLibrary (some greyNote) := .append (.append .empty _ _ _ _) _ _ _ _
  obtain ⟨view, hview, hfacts⟩ := @exists_view skyLibrary { path := "Notes/Sky.md".toList }
    (priorFacts skyLibrary (some greyNote)) Moment.sample readReport rfl
  refine ⟨view, hview, ?_, (projectFacts_sound skyLibrary_lawful lastText_lastRead hnote hview).2.2.2.1⟩
  rw [hfacts, greyNote_facts]
  decide +kernel

end Zenod.Engine
