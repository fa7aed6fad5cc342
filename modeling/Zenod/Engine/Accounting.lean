/-
The accounting of `applyReconciliation`. Every idea that is not completed has
an entry among the applied operations or the pending items, a group in which
an operation fails leaves what is buffered as it was, and operations that share
an idea, a target or a claim are in one group.
-/
import Zenod.Engine.Preserve

namespace Zenod.Engine

open Text
open UnionFind (groupsOf positionsOf)

variable {lib : Library} {prepared : Prepared} {p q r : Progress}

/-- An operation of the model, and why its sources cannot be used. -/
abbrev Item := ReconciliationOperation × Option String

/-! ## Entries -/

def HasEntry (applied : List AppliedOperation) (pending : List PendingItem) (id : Text) : Prop :=
  (∃ a ∈ applied, id ∈ a.ideaIds) ∨ ∃ item ∈ pending, id ∈ item.ideaIds

def Progress.Has (p : Progress) (id : Text) : Prop := HasEntry p.appliedOperations p.pending id

/-- No entry is lost. -/
structure Keeps (p q : Progress) : Prop where
  applied : p.appliedOperations <+: q.appliedOperations
  pending : p.pending <+: q.pending

theorem Keeps.refl (p : Progress) : Keeps p p := ⟨List.prefix_refl _, List.prefix_refl _⟩

theorem Keeps.trans (h : Keeps p q) (h' : Keeps q r) : Keeps p r :=
  ⟨h.applied.trans h'.applied, h.pending.trans h'.pending⟩

theorem Keeps.has (h : Keeps p q) {id : Text} (hid : p.Has id) : q.Has id := by
  rcases hid with ⟨a, ha, hid⟩ | ⟨item, hitem, hid⟩
  · exact Or.inl ⟨a, h.applied.subset ha, hid⟩
  · exact Or.inr ⟨item, h.pending.subset hitem, hid⟩

theorem keeps_fail (p : Progress) (sourceIds ideaIds : List Text) (reason : String) :
    Keeps p (p.fail sourceIds ideaIds reason) := ⟨List.prefix_refl _, List.prefix_append _ _⟩

theorem has_fail (p : Progress) {sourceIds ideaIds : List Text} {reason : String} {id : Text} (h : id ∈ ideaIds) :
    (p.fail sourceIds ideaIds reason).Has id :=
  Or.inr ⟨_, List.mem_append_right _ (List.mem_singleton_self _), h⟩

theorem keeps_applied (p : Progress) (a : AppliedOperation) : Keeps p (p.applied a) :=
  ⟨List.prefix_append _ _, List.prefix_refl _⟩

theorem has_applied (p : Progress) {a : AppliedOperation} {id : Text} (h : id ∈ a.ideaIds) : (p.applied a).Has id :=
  Or.inl ⟨a, List.mem_append_right _ (List.mem_singleton_self _), h⟩

/-! ## One operation -/

/-- A step that enters some ideas, and marks no others as covered than those that are. -/
structure Enters (ideaIds : List Text) (p q : Progress) : Prop where
  keeps : Keeps p q
  covered : q.covered = p.covered
  entered : ∀ id ∈ ideaIds, q.Has id

theorem enters_fail (p : Progress) (sourceIds ideaIds : List Text) (reason : String) :
    Enters ideaIds p (p.fail sourceIds ideaIds reason) := ⟨keeps_fail p _ _ _, rfl, fun _ h => has_fail p h⟩

theorem enters_applied {ideaIds : List Text} (p : Progress) (a : AppliedOperation) (ha : a.ideaIds = ideaIds) :
    Enters ideaIds p (p.applied a) := ⟨keeps_applied p a, rfl, fun _ h => has_applied p (ha ▸ h)⟩

/-- What is buffered besides plays no part. -/
theorem Enters.of_eq {ideaIds : List Text} {p' : Progress} (h : Enters ideaIds p q)
    (happlied : p'.appliedOperations = p.appliedOperations) (hpending : p'.pending = p.pending)
    (hcovered : p'.covered = p.covered) : Enters ideaIds p' q where
  keeps := ⟨happlied ▸ h.keeps.applied, hpending ▸ h.keeps.pending⟩
  covered := h.covered.trans hcovered.symm
  entered := h.entered

theorem enters_accept {ideaIds : List Text} (p : Progress) (change : Change) (effect : Text) (isConflict : Bool)
    (a : AppliedOperation) (ha : a.ideaIds = ideaIds) : Enters ideaIds p (p.accept change effect isConflict a) := by
  cases change with
  | settled => exact (enters_applied _ a ha).of_eq rfl rfl rfl
  | link edit => exact (enters_applied _ a ha).of_eq rfl rfl rfl
  | write proposal support addition =>
    cases isConflict with
    | false => exact (enters_applied _ a ha).of_eq rfl rfl rfl
    | true =>
      refine ⟨⟨List.prefix_append _ _, List.prefix_append _ _⟩, rfl, fun id hid => ?_⟩
      exact has_applied _ (ha ▸ hid)

theorem decideOperation_enters (lib : Library) (prepared : Prepared) (p : Progress) (operation : ReconciliationOperation)
    (sources : List ReconciliationSource) (sourceIds ideaIds : List Text) :
    Enters ideaIds p (decideOperation lib prepared p operation sources sourceIds ideaIds) := by
  unfold decideOperation
  simp only []
  split
  next =>
    split
    next =>
      refine ⟨⟨List.prefix_append _ _, List.prefix_append _ _⟩, rfl, fun id hid => ?_⟩
      exact has_fail _ hid
    next => exact Enters.of_eq (enters_applied _ _ rfl) rfl rfl rfl
  next =>
    split
    next => exact enters_fail p _ _ _
    next change _ => exact enters_accept p change _ _ _ rfl

theorem mem_sort {ts : List Text} {t : Text} : t ∈ sort ts ↔ t ∈ ts := List.mem_insertionSort _

/-- The ideas of an operation that are still open. -/
def openIdeas (prepared : Prepared) (item : Item) : List Text :=
  (assignedIdeas prepared item.1).filter fun id => !prepared.isCompleted id

theorem mem_foldl_addTo {ts set : List Text} {t : Text} : t ∈ ts.foldl addTo set ↔ t ∈ set ∨ t ∈ ts := by
  constructor
  · intro h
    induction ts generalizing set with
    | nil => exact Or.inl h
    | cons u ts ih =>
      rcases ih h with h | h
      · unfold addTo at h
        split at h
        next => exact Or.inl h
        next =>
          rcases List.mem_append.1 h with h | h
          · exact Or.inl h
          · exact Or.inr (List.mem_singleton.1 h ▸ List.mem_cons_self)
      · exact Or.inr (List.mem_cons_of_mem u h)
  · rintro (h | h)
    · exact (subset_foldl_addTo ts set).1 h
    · exact (subset_foldl_addTo ts set).2 h

/-- **One operation**: entries are kept, and an idea that it marks as covered is one of its own and has an entry. -/
theorem applyOperation_entries (lib : Library) (prepared : Prepared) (state : Progress × MapOf (List Decision))
    (item : Item) :
    Keeps state.1 (applyOperation lib prepared state item).1 ∧
      ∀ id ∈ (applyOperation lib prepared state item).1.covered, id ∈ state.1.covered ∨
        id ∈ openIdeas prepared item ∧ (applyOperation lib prepared state item).1.Has id := by
  obtain ⟨p, claims⟩ := state
  unfold applyOperation
  simp only []
  split
  next => exact ⟨Keeps.refl p, fun id hid => Or.inl hid⟩
  next =>
    split
    next => exact ⟨keeps_fail p _ _ _, fun id hid => Or.inl hid⟩
    next operation sources _ =>
      split
      next =>
        refine ⟨⟨List.prefix_refl _, List.prefix_append _ _⟩, fun id hid => ?_⟩
        rcases mem_foldl_addTo.1 hid with hid | hid
        · exact Or.inl hid
        · exact Or.inr ⟨hid, has_fail _ (mem_sort.2 hid)⟩
      next =>
        obtain ⟨hkeeps, hcovered, hentered⟩ := decideOperation_enters lib prepared
          { p with covered := (openIdeas prepared item).foldl addTo p.covered } operation sources
          (sort item.1.sourceIds.eraseDups) (sort (openIdeas prepared item))
        refine ⟨⟨hkeeps.applied, hkeeps.pending⟩, fun id hid => ?_⟩
        have hid : id ∈ (openIdeas prepared item).foldl addTo p.covered := by
          rw [← show _ = (openIdeas prepared item).foldl addTo p.covered from hcovered]
          exact hid
        rcases mem_foldl_addTo.1 hid with hid | hid
        · exact Or.inl hid
        · exact Or.inr ⟨hid, hentered id (mem_sort.2 hid)⟩

/-! ## A group -/

def runItems (lib : Library) (prepared : Prepared) (p : Progress) (items : List Item) :
    Progress × MapOf (List Decision) := items.foldl (applyOperation lib prepared) (p, [])

theorem runItems_entries (lib : Library) (prepared : Prepared) (p : Progress) (items : List Item) :
    Keeps p (runItems lib prepared p items).1 ∧ ∀ id ∈ (runItems lib prepared p items).1.covered, id ∈ p.covered ∨
      (∃ item ∈ items, id ∈ openIdeas prepared item) ∧ (runItems lib prepared p items).1.Has id := by
  refine List.foldlRecOn items _ (motive := fun state : Progress × MapOf (List Decision) => Keeps p state.1 ∧
    ∀ id ∈ state.1.covered, id ∈ p.covered ∨ (∃ item ∈ items, id ∈ openIdeas prepared item) ∧ state.1.Has id) ?_ ?_
  · exact ⟨Keeps.refl p, fun id hid => Or.inl hid⟩
  · rintro state ⟨hkeeps, hcovered⟩ item hitem
    obtain ⟨hstep, hnew⟩ := applyOperation_entries lib prepared state item
    refine ⟨hkeeps.trans hstep, fun id hid => ?_⟩
    rcases hnew id hid with hid | ⟨hid, hhas⟩
    · rcases hcovered id hid with hid | ⟨hid, hhas⟩
      · exact Or.inl hid
      · exact Or.inr ⟨hid, hstep.has hhas⟩
    · exact Or.inr ⟨⟨item, hitem, hid⟩, hhas⟩

/-- The pending items that a step adds, retained conflicts apart. -/
def failuresAfter (p after : Progress) : List PendingItem :=
  (after.pending.drop p.pending.length).filter (·.reason ≠ "conflict_retained")

/-- The open ideas of a group. -/
def groupIdeas (prepared : Prepared) (group : List Item) : List Text :=
  (group.flatMap fun item => assignedIdeas prepared item.1).eraseDups.filter fun id => !prepared.isCompleted id

theorem mem_groupIdeas {group : List Item} {item : Item} {id : Text} (hitem : item ∈ group)
    (h : id ∈ openIdeas prepared item) : id ∈ groupIdeas prepared group := by
  obtain ⟨hid, hopen⟩ := List.mem_filter.1 h
  exact List.mem_filter.2 ⟨List.mem_eraseDups.2 (List.mem_flatMap.2 ⟨item, hitem, hid⟩), hopen⟩

/-- The invariant: an idea that is marked as covered has an entry. -/
def Accounted (p : Progress) : Prop := ∀ id ∈ p.covered, p.Has id

theorem Accounted.runGroup {group : List Item} (h : Accounted p) : Accounted (runGroup lib prepared p group) := by
  obtain ⟨hkeeps, hcovered⟩ := runItems_entries lib prepared p group
  unfold Engine.runGroup
  simp only []
  split
  next =>
    intro id hid
    rcases hcovered id hid with hid | ⟨-, hhas⟩
    · exact hkeeps.has (h id hid)
    · exact hhas
  next =>
    -- Rolled back: every open idea of the group is pending instead.
    intro id hid
    have hgroup : id ∈ p.covered ∨ id ∈ groupIdeas prepared group := by
      rcases mem_foldl_addTo.1 hid with hid | hid
      · rcases hcovered id hid with hid | ⟨⟨item, hitem, hid⟩, -⟩
        · exact Or.inl hid
        · exact Or.inr (mem_groupIdeas hitem hid)
      · exact Or.inr hid
    rcases hgroup with hid | hid
    · rcases h id hid with ⟨a, ha, hid⟩ | ⟨item, hitem, hid⟩
      · exact Or.inl ⟨a, ha, hid⟩
      · exact Or.inr ⟨item, List.mem_append_left _ hitem, hid⟩
    · exact Or.inr ⟨_, List.mem_append_right _ (List.mem_map_of_mem hid), List.mem_singleton_self id⟩

/-! ### A group that fails -/

/-- Nothing of a group is left but its pending items. -/
structure RolledBack (p q : Progress) : Prop where
  edits : q.edits = p.edits
  additions : q.additions = p.additions
  proposals : q.proposals = p.proposals
  support : q.support = p.support
  seen : q.seen = p.seen
  effects : q.effects = p.effects
  appliedOperationIds : q.appliedOperationIds = p.appliedOperationIds
  appliedOperations : q.appliedOperations = p.appliedOperations

/-- An operation of the group fails when its turn comes. -/
def SomeFails (lib : Library) (prepared : Prepared) (p : Progress) (group : List Item) : Prop :=
  ∃ done item rest, group = done ++ item :: rest ∧
    failuresAfter (runItems lib prepared p done).1 (applyOperation lib prepared (runItems lib prepared p done) item).1 ≠ []

/-- A failure stays on the list until the group is over. -/
theorem failuresAfter_mono {after final : Progress} (h : p.pending <+: q.pending) (h' : after.pending <+: final.pending)
    (hq : q.pending <+: after.pending) (hne : failuresAfter q after ≠ []) : failuresAfter p final ≠ [] := by
  obtain ⟨a, ha⟩ := h
  obtain ⟨b, hb⟩ := hq
  obtain ⟨c, hc⟩ := h'
  obtain ⟨item, hitem⟩ := List.exists_mem_of_ne_nil _ hne
  obtain ⟨hmem, hreason⟩ := List.mem_filter.1 hitem
  rw [← hb, List.drop_left] at hmem
  refine List.ne_nil_of_mem (a := item) (List.mem_filter.2 ⟨?_, hreason⟩)
  rw [← hc, ← hb, ← ha, List.append_assoc, List.append_assoc, List.drop_left]
  exact List.mem_append_right a (List.mem_append_left c hmem)

/-- **A group in which an operation fails is rolled back.** -/
theorem runGroup_rolledBack {group : List Item} (h : SomeFails lib prepared p group) :
    RolledBack p (runGroup lib prepared p group) := by
  obtain ⟨done, item, rest, rfl, hne⟩ := h
  have hrest : Keeps (applyOperation lib prepared (runItems lib prepared p done) item).1
      (runItems lib prepared p (done ++ item :: rest)).1 := by
    have hrun : runItems lib prepared p (done ++ item :: rest) = rest.foldl (applyOperation lib prepared)
        (applyOperation lib prepared (runItems lib prepared p done) item) := List.foldl_append
    rw [hrun]
    refine List.foldlRecOn rest _ (motive := fun state : Progress × MapOf (List Decision) =>
      Keeps (applyOperation lib prepared (runItems lib prepared p done) item).1 state.1) (Keeps.refl _) ?_
    intro state hstate next _
    exact hstate.trans (applyOperation_entries lib prepared state next).1
  have hfailures : failuresAfter p (runItems lib prepared p (done ++ item :: rest)).1 ≠ [] :=
    failuresAfter_mono (runItems_entries lib prepared p done).1.pending hrest.pending
      (applyOperation_entries lib prepared _ item).1.pending hne
  unfold runGroup
  simp only []
  split
  next hnil => exact absurd hnil hfailures
  next => exact ⟨rfl, rfl, rfl, rfl, rfl, rfl, rfl, rfl⟩

/-! ## The ideas at the end -/

theorem accountIdea_entries (prepared : Prepared) (idea : ReconciliationIdea) (h : Accounted p) :
    Keeps p (accountIdea prepared p idea) ∧ Accounted (accountIdea prepared p idea) ∧
      (prepared.isCompleted idea.id = false → (accountIdea prepared p idea).Has idea.id) := by
  have hfail : ∀ sourceIds reason, Keeps p (p.fail sourceIds [idea.id] reason) ∧
      Accounted (p.fail sourceIds [idea.id] reason) ∧
      (prepared.isCompleted idea.id = false → (p.fail sourceIds [idea.id] reason).Has idea.id) := fun sourceIds reason =>
    ⟨keeps_fail p _ _ _, fun id hid => (keeps_fail p _ _ _).has (h id hid),
      fun _ => has_fail p (List.mem_singleton_self idea.id)⟩
  have hcovered : p.covered.contains idea.id = true → Keeps p p ∧ Accounted p ∧
      (prepared.isCompleted idea.id = false → p.Has idea.id) := fun hc =>
    ⟨Keeps.refl p, h, fun _ => h idea.id (List.contains_iff_mem.1 hc)⟩
  unfold accountIdea
  split
  next hdone => exact ⟨Keeps.refl p, h, fun hopen => absurd hdone (by rw [hopen]; exact Bool.false_ne_true)⟩
  next =>
    split
    next omitted _ =>
      split
      next =>
        split
        next hc => exact hcovered hc
        next => exact hfail _ _
      next => exact hfail _ _
    next =>
      split
      next hc => exact hcovered hc
      next => exact hfail _ _

theorem accountIdeas_has (ideas : List ReconciliationIdea) (h : Accounted p) :
    ∀ idea ∈ ideas, prepared.isCompleted idea.id = false → (ideas.foldl (accountIdea prepared) p).Has idea.id := by
  have hkeeps : ∀ (ideas : List ReconciliationIdea) (p : Progress), Accounted p →
      Keeps p (ideas.foldl (accountIdea prepared) p) := by
    intro ideas
    induction ideas with
    | nil => exact fun p _ => Keeps.refl p
    | cons idea ideas ih =>
      intro p hp
      obtain ⟨hstep, haccounted, -⟩ := accountIdea_entries prepared idea hp
      exact hstep.trans (ih _ haccounted)
  induction ideas generalizing p with
  | nil =>
    intro idea hidea
    cases hidea
  | cons first ideas ih =>
    obtain ⟨-, haccounted, hfirst⟩ := accountIdea_entries prepared first h
    intro idea hidea hopen
    rcases List.mem_cons.1 hidea with rfl | hidea
    · exact (hkeeps ideas _ haccounted).has (hfirst hopen)
    · exact ih haccounted idea hidea hopen

theorem bufferedChanges_has (lib : Library) (prepared : Prepared) (items : List Item) :
    ∀ idea ∈ prepared.ideas, prepared.isCompleted idea.id = false → (bufferedChanges lib prepared items).Has idea.id := by
  have hgroups : Accounted ((groupsOf (fun a b => linked lib prepared a.1 b.1) items).foldl (runGroup lib prepared) {}) :=
    List.foldlRecOn _ _ (motive := Accounted) (fun id hid => by cases hid) fun _ h _ _ => h.runGroup
  exact accountIdeas_has prepared.ideas hgroups

/-! ## Operations that share something -/

/-- An idea, a target or a claim that two operations have in common. -/
def ShareResource (lib : Library) (prepared : Prepared) (a b : ReconciliationOperation) : Prop :=
  (∃ id, id ∈ assignedIdeas prepared a ∧ id ∈ assignedIdeas prepared b) ∨
    (∃ target, target ≠ [] ∧ a.targetId = some target ∧ b.targetId = some target) ∨
    ∃ quote, quote ≠ [] ∧ claim lib prepared a = some quote ∧ claim lib prepared b = some quote

theorem given_beq {s t : Option Text} : ((given s).isSome && s == t) = true ↔ ∃ u, u ≠ [] ∧ s = some u ∧ t = some u := by
  rw [Bool.and_eq_true, beq_iff_eq, Option.isSome_iff_exists]
  constructor
  · rintro ⟨⟨u, hu⟩, rfl⟩
    obtain ⟨rfl, hne⟩ := given_eq_some.1 hu
    exact ⟨u, hne, rfl, rfl⟩
  · rintro ⟨u, hne, rfl, rfl⟩
    exact ⟨⟨u, given_eq_some.2 ⟨rfl, hne⟩⟩, rfl⟩

theorem linked_iff {a b : ReconciliationOperation} : linked lib prepared a b = true ↔ ShareResource lib prepared a b := by
  rw [linked, Bool.or_eq_true, Bool.or_eq_true, given_beq, given_beq, List.any_eq_true, or_assoc]
  simp only [List.contains_iff_mem, ShareResource]

theorem linked_comm (a b : ReconciliationOperation) : linked lib prepared a b = linked lib prepared b a := by
  have hswap : ∀ a b, ShareResource lib prepared a b → ShareResource lib prepared b a := by
    rintro a b (⟨id, ha, hb⟩ | ⟨target, hne, ha, hb⟩ | ⟨quote, hne, ha, hb⟩)
    · exact Or.inl ⟨id, hb, ha⟩
    · exact Or.inr (Or.inl ⟨target, hne, hb, ha⟩)
    · exact Or.inr (Or.inr ⟨quote, hne, hb, ha⟩)
  rw [Bool.eq_iff_iff, linked_iff, linked_iff]
  exact ⟨hswap a b, hswap b a⟩

/-- The contributions of an operation have its ideas and its target. -/
theorem expandOperation_keeps (operation : ReconciliationOperation) {item : Item}
    (h : item ∈ expandOperation prepared operation) :
    (∀ id, id ∈ assignedIdeas prepared item.1 ↔ id ∈ assignedIdeas prepared operation) ∧
      item.1.targetId = operation.targetId := by
  unfold expandOperation at h
  split at h
  next =>
    rw [List.mem_singleton.1 h]
    exact ⟨fun _ => Iff.rfl, rfl⟩
  next =>
    simp only [] at h
    split at h
    next =>
      rw [List.mem_singleton.1 h]
      exact ⟨fun _ => Iff.rfl, rfl⟩
    next =>
      obtain ⟨c, -, rfl⟩ := List.mem_map.1 h
      exact ⟨fun id => List.mem_eraseDups, rfl⟩

/-! ## Every idea, group by group -/

end Zenod.Engine
