/-
Grouping by a link, with a union-find over the positions of a list: every
position has a parent, a root is its own, and each linked pair puts one root
under the other.

`partsOf_link`: linked positions end up in one part, and the parts are
disjoint and take in every position (`partsOf_cover`, `partsOf_disjoint`).
-/
import Mathlib.Data.List.Basic
import Mathlib.Data.List.Nodup

namespace Zenod.UnionFind

def parent (parents : List Nat) (i : Nat) : Nat := parents.getD i i

/-- The root above a position, followed at most so many steps. -/
def rootOf (parents : List Nat) : Nat → Nat → Nat
  | 0, i => i
  | n + 1, i => if parent parents i = i then i else rootOf parents n (parent parents i)

/-- The pairs `(i, j)` with `j < i < n`, row by row. -/
def pairs (n : Nat) : List (Nat × Nat) := (List.range n).flatMap fun i => (List.range i).map fun j => (i, j)

/-- One linked pair: `parents[root(i)] = root(j)`. -/
def unite (link : Nat → Nat → Bool) (fuel : Nat) (parents : List Nat) (e : Nat × Nat) : List Nat :=
  if link e.1 e.2 then parents.set (rootOf parents fuel e.1) (rootOf parents fuel e.2) else parents

def parentsOf (link : Nat → Nat → Bool) (n : Nat) : List Nat :=
  (pairs n).foldl (unite link (pairs n).length) (List.range n)

/-- The positions by root, in the order in which the roots come up. -/
def partsOf (link : Nat → Nat → Bool) (n : Nat) : List (List Nat) :=
  let root := rootOf (parentsOf link n) (pairs n).length
  ((List.range n).map root).eraseDups.map fun r => (List.range n).filter fun i => root i = r

section
variable {α : Type} (link : α → α → Bool) (items : List α)

def linkedAt (i j : Nat) : Bool := (items[i]?.bind fun a => items[j]?.map (link a)).getD false

/-- The parts of the positions of some items. -/
def positionsOf : List (List Nat) := partsOf (linkedAt link items) items.length

def groupsOf : List (List α) := (positionsOf link items).map fun part => part.filterMap (items[·]?)

end

/-! ## Forests -/

/-- Heights grow towards the roots, and no height is above a bound: a root is reached in that many steps. -/
structure Forest (n bound : Nat) (parents : List Nat) (height : Nat → Nat) : Prop where
  length : parents.length = n
  parent_lt : ∀ i < n, parent parents i < n
  height_le : ∀ i, height i ≤ bound
  height_lt : ∀ i < n, parent parents i ≠ i → height i < height (parent parents i)

variable {n bound : Nat} {parents : List Nat} {height : Nat → Nat}

theorem rootOf_of_parent_eq {i : Nat} (h : parent parents i = i) (m : Nat) : rootOf parents m i = i := by
  cases m with
  | zero => rfl
  | succ m => rw [rootOf, if_pos h]

/-- With enough steps for the height above a position, its root is reached, and more steps change nothing. -/
theorem Forest.root (hf : Forest n bound parents height) {m i : Nat} (hi : i < n) (hm : bound ≤ height i + m) :
    rootOf parents m i < n ∧ parent parents (rootOf parents m i) = rootOf parents m i ∧
      ∀ k, m ≤ k → rootOf parents k i = rootOf parents m i := by
  induction m generalizing i with
  | zero =>
    have hroot : parent parents i = i := by
      by_contra hne
      have := hf.height_lt i hi hne
      have := hf.height_le (parent parents i)
      omega
    exact ⟨hi, hroot, fun k _ => rootOf_of_parent_eq hroot k⟩
  | succ m ih =>
    by_cases hroot : parent parents i = i
    · rw [rootOf_of_parent_eq hroot]
      exact ⟨hi, hroot, fun k _ => rootOf_of_parent_eq hroot k⟩
    · have hlt := hf.height_lt i hi hroot
      obtain ⟨hn, hfix, hmore⟩ := ih (hf.parent_lt i hi) (by omega)
      rw [rootOf, if_neg hroot]
      refine ⟨hn, hfix, fun k hk => ?_⟩
      obtain ⟨k, rfl⟩ : ∃ k', k = k' + 1 := ⟨k - 1, by omega⟩
      rw [rootOf, if_neg hroot]
      exact hmore k (by omega)

theorem parent_set {parents : List Nat} {r s i : Nat} (hr : r < parents.length) :
    parent (parents.set r s) i = if i = r then s else parent parents i := by
  unfold parent
  rw [List.getD_eq_getElem?_getD, List.getElem?_set, List.getD_eq_getElem?_getD]
  by_cases h : i = r
  · rw [if_pos h.symm, if_pos h, if_pos hr]
    rfl
  · rw [if_neg (Ne.symm h), if_neg h]

/-- One root put under another: a forest still, one step higher. -/
theorem Forest.set (hf : Forest n bound parents height) {r s : Nat} (hr : r < n) (hs : s < n)
    (hroot' : parent parents s = s) : ∃ height', Forest n (bound + 1) (parents.set r s) height' := by
  have hparent : ∀ i, parent (parents.set r s) i = if i = r then s else parent parents i :=
    fun i => parent_set (by rw [hf.length]; exact hr)
  by_cases hrs : r = s
  · refine ⟨height, ?_, fun i hi => ?_, fun i => Nat.le_succ_of_le (hf.height_le i), fun i hi hne => ?_⟩
    · rw [List.length_set, hf.length]
    · rw [hparent]
      split
      next => exact hs
      next => exact hf.parent_lt i hi
    · rw [hparent] at hne ⊢
      split at hne
      next h => exact absurd (h.trans hrs).symm hne
      next h =>
        rw [if_neg h]
        exact hf.height_lt i hi hne
  · refine ⟨fun i => if i = s then bound + 1 else height i, ?_, fun i hi => ?_, fun i => ?_, fun i hi hne => ?_⟩
    · rw [List.length_set, hf.length]
    · rw [hparent]
      split
      next => exact hs
      next => exact hf.parent_lt i hi
    · have := hf.height_le i
      show (if i = s then bound + 1 else height i) ≤ bound + 1
      split <;> omega
    · show (if i = s then bound + 1 else height i) <
        if parent (parents.set r s) i = s then bound + 1 else height (parent (parents.set r s) i)
      have hle := hf.height_le i
      rw [hparent] at hne ⊢
      by_cases his : i = s
      · rw [if_neg (fun h => hrs (h.symm.trans his)), his] at hne
        exact absurd hroot' hne
      · rw [if_neg his]
        split at hne
        next h => rw [if_pos h, if_pos rfl]; omega
        next h =>
          rw [if_neg h]
          have := hf.height_lt i hi hne
          split <;> omega

/-- What that does to the roots. -/
theorem Forest.root_set (hf : Forest n bound parents height) {r s : Nat} (hr : r < n)
    (hroot : parent parents r = r) (hroot' : parent parents s = s) {m i : Nat} (hi : i < n) (hm : bound ≤ height i + m) :
    rootOf (parents.set r s) (m + 1) i = if rootOf parents m i = r then s else rootOf parents m i := by
  have hparent : ∀ i, parent (parents.set r s) i = if i = r then s else parent parents i :=
    fun i => parent_set (by rw [hf.length]; exact hr)
  have hs' : parent (parents.set r s) s = s := by
    rw [hparent]
    split
    next => rfl
    next => exact hroot'
  induction m generalizing i with
  | zero =>
    have hfix := (hf.root hi hm).2.1
    have hfix : parent parents i = i := hfix
    show rootOf (parents.set r s) 1 i = if i = r then s else i
    rw [rootOf, hparent]
    by_cases h : i = r
    · rw [if_pos h, if_pos h]
      split
      next heq => exact heq.symm
      next => rfl
    · rw [if_neg h, if_neg h, if_pos hfix]
  | succ m ih =>
    by_cases hfix : parent parents i = i
    · rw [rootOf_of_parent_eq hfix, rootOf, hparent]
      by_cases h : i = r
      · rw [if_pos h, if_pos h, rootOf_of_parent_eq hs']
        split
        next heq => exact heq.symm
        next => rfl
      · rw [if_neg h, if_neg h, if_pos hfix]
    · have hne : i ≠ r := fun h => hfix (h ▸ hroot)
      have hlt := hf.height_lt i hi hfix
      have hafter : rootOf (parents.set r s) (m + 2) i = rootOf (parents.set r s) (m + 1) (parent parents i) := by
        rw [rootOf, hparent, if_neg hne, if_neg hfix]
      have hbefore : rootOf parents (m + 1) i = rootOf parents m (parent parents i) := by
        rw [rootOf, if_neg hfix]
      rw [hafter, hbefore]
      exact ih (hf.parent_lt i hi) (by omega)

/-! ## Linked positions -/

/-- The positions of the pairs seen so far that are linked have one root. -/
structure United (link : Nat → Nat → Bool) (n fuel : Nat) (seen : List (Nat × Nat)) (parents : List Nat) : Prop where
  forest : ∃ height, Forest n seen.length parents height
  root_eq : ∀ e ∈ seen, link e.1 e.2 = true → rootOf parents fuel e.1 = rootOf parents fuel e.2

theorem united_range (link : Nat → Nat → Bool) (n fuel : Nat) : United link n fuel [] (List.range n) where
  forest := by
    refine ⟨fun _ => 0, List.length_range, fun i hi => ?_, fun _ => Nat.le.refl, fun i hi hne => ?_⟩
    · rw [parent, List.getD_eq_getElem?_getD, List.getElem?_range hi]
      exact hi
    · rw [parent, List.getD_eq_getElem?_getD, List.getElem?_range hi] at hne
      exact absurd rfl hne
  root_eq := fun e he => by cases he

theorem United.unite {link : Nat → Nat → Bool} {fuel : Nat} {seen : List (Nat × Nat)}
    (h : United link n fuel seen parents) {e : Nat × Nat} (he : e.1 < n ∧ e.2 < n) (hseen : ∀ e ∈ seen, e.1 < n ∧ e.2 < n)
    (hfuel : seen.length < fuel) : United link n fuel (seen ++ [e]) (unite link fuel parents e) := by
  obtain ⟨height, hf⟩ := h.forest
  have hlength : (seen ++ [e]).length = seen.length + 1 := List.length_append
  unfold UnionFind.unite
  split
  next hlink =>
    obtain ⟨hr, hrfix, -⟩ := hf.root he.1 (m := fuel) (by omega)
    obtain ⟨hs, hsfix, -⟩ := hf.root he.2 (m := fuel) (by omega)
    obtain ⟨height', hf'⟩ := hf.set hr hs hsfix
    have hroots : ∀ i < n, rootOf (parents.set (rootOf parents fuel e.1) (rootOf parents fuel e.2)) fuel i =
        if rootOf parents fuel i = rootOf parents fuel e.1 then rootOf parents fuel e.2 else rootOf parents fuel i := by
      intro i hi
      obtain ⟨f, rfl⟩ : ∃ f, fuel = f + 1 := ⟨fuel - 1, by omega⟩
      have hstep := hf.root_set hr hrfix hsfix (m := f) hi (by omega)
      rw [hstep, (hf.root hi (m := f) (by omega)).2.2 (f + 1) (Nat.le_succ f)]
    refine ⟨⟨height', by rw [hlength]; exact hf'⟩, fun d hd hdlink => ?_⟩
    rcases List.mem_append.1 hd with hd | hd
    · rw [hroots _ (hseen d hd).1, hroots _ (hseen d hd).2, h.root_eq d hd hdlink]
    · rw [List.mem_singleton.1 hd, hroots _ he.1, hroots _ he.2, if_pos rfl]
      split
      next => rfl
      next => rfl
  next hlink =>
    refine ⟨⟨height, hf.length, hf.parent_lt, fun i => ?_, hf.height_lt⟩, fun d hd hdlink => ?_⟩
    · rw [hlength]
      exact Nat.le_succ_of_le (hf.height_le i)
    · rcases List.mem_append.1 hd with hd | hd
      · exact h.root_eq d hd hdlink
      · rw [List.mem_singleton.1 hd] at hdlink
        exact absurd hdlink hlink

theorem mem_pairs {n : Nat} {e : Nat × Nat} : e ∈ pairs n ↔ e.1 < n ∧ e.2 < e.1 := by
  simp only [pairs, List.mem_flatMap, List.mem_map, List.mem_range]
  constructor
  · rintro ⟨i, hi, j, hj, rfl⟩
    exact ⟨hi, hj⟩
  · rintro ⟨hi, hj⟩
    exact ⟨e.1, hi, e.2, hj, rfl⟩

theorem united_parentsOf (link : Nat → Nat → Bool) (n : Nat) :
    United link n (pairs n).length (pairs n) (parentsOf link n) := by
  have hbounds : ∀ e ∈ pairs n, e.1 < n ∧ e.2 < n := fun e he =>
    ⟨(mem_pairs.1 he).1, Nat.lt_trans (mem_pairs.1 he).2 (mem_pairs.1 he).1⟩
  have hfold : ∀ (rest seen : List (Nat × Nat)) (parents : List Nat), pairs n = seen ++ rest →
      United link n (pairs n).length seen parents →
      United link n (pairs n).length (pairs n) (rest.foldl (unite link (pairs n).length) parents) := by
    intro rest
    induction rest with
    | nil =>
      intro seen parents hpairs h
      rw [List.append_nil] at hpairs
      rw [hpairs] at h ⊢
      exact h
    | cons e rest ih =>
      intro seen parents hpairs h
      refine ih (seen ++ [e]) _ (by rw [hpairs, List.append_assoc]; rfl) (h.unite ?_ (fun d hd => ?_) ?_)
      · exact hbounds e (by rw [hpairs]; exact List.mem_append_right _ List.mem_cons_self)
      · exact hbounds d (by rw [hpairs]; exact List.mem_append_left _ hd)
      · rw [hpairs, List.length_append, List.length_cons]
        omega
  exact hfold (pairs n) [] (List.range n) rfl (united_range link n _)

/-! ## Parts -/

/-- The part of a position. -/
theorem partOf {link : Nat → Nat → Bool} {n i : Nat} (hi : i < n) : ∃ part ∈ partsOf link n, ∀ j, j ∈ part ↔
    j < n ∧ rootOf (parentsOf link n) (pairs n).length j = rootOf (parentsOf link n) (pairs n).length i := by
  refine ⟨_, List.mem_map.2 ⟨rootOf (parentsOf link n) (pairs n).length i, ?_, rfl⟩, fun j => ?_⟩
  · rw [List.mem_eraseDups]
    exact List.mem_map_of_mem (List.mem_range.2 hi)
  · rw [List.mem_filter, List.mem_range, decide_eq_true_eq]

theorem partsOf_cover {link : Nat → Nat → Bool} {n i : Nat} (hi : i < n) : ∃ part ∈ partsOf link n, i ∈ part := by
  obtain ⟨part, hpart, hmem⟩ := @partOf link _ _ hi
  exact ⟨part, hpart, (hmem i).2 ⟨hi, rfl⟩⟩

/-- A position is in one part only. -/
theorem partsOf_disjoint {link : Nat → Nat → Bool} {n i : Nat} {part other : List Nat} (hpart : part ∈ partsOf link n)
    (hother : other ∈ partsOf link n) (hi : i ∈ part) (hi' : i ∈ other) : part = other := by
  obtain ⟨r, -, rfl⟩ := List.mem_map.1 hpart
  obtain ⟨s, -, rfl⟩ := List.mem_map.1 hother
  rw [List.mem_filter, decide_eq_true_eq] at hi hi'
  rw [← hi.2, ← hi'.2]

/-- **Linked positions are in one part.** -/
theorem partsOf_link {link : Nat → Nat → Bool} {n i j : Nat} (hi : i < n) (hji : j < i) (h : link i j = true) :
    ∃ part ∈ partsOf link n, i ∈ part ∧ j ∈ part := by
  obtain ⟨part, hpart, hmem⟩ := @partOf link _ _ hi
  refine ⟨part, hpart, (hmem i).2 ⟨hi, rfl⟩, (hmem j).2 ⟨Nat.lt_trans hji hi, ?_⟩⟩
  exact ((united_parentsOf link n).root_eq (i, j) (mem_pairs.2 ⟨hi, hji⟩) h).symm

/-! ## Groups -/

variable {α : Type} {link : α → α → Bool} {items : List α}

theorem group_subset {group : List α} (h : group ∈ groupsOf link items) : group ⊆ items := by
  obtain ⟨part, -, rfl⟩ := List.mem_map.1 h
  intro a ha
  obtain ⟨i, -, hi⟩ := List.mem_filterMap.1 ha
  exact List.mem_of_getElem? hi

/-- **Items with a symmetric link between them are in one group**, whichever comes first. -/
theorem positionsOf_link (hsymm : ∀ a b, link a b = link b a) {i j : Nat} {a b : α} (ha : items[i]? = some a)
    (hb : items[j]? = some b) (h : link a b = true) : ∃ part ∈ positionsOf link items, i ∈ part ∧ j ∈ part := by
  have hi : i < items.length := (List.getElem?_eq_some_iff.1 ha).1
  have hj : j < items.length := (List.getElem?_eq_some_iff.1 hb).1
  rcases Nat.lt_trichotomy i j with hlt | rfl | hlt
  · have hlink : linkedAt link items j i = true := by
      rw [linkedAt, ha, hb, ← h, hsymm a b]
      rfl
    obtain ⟨part, hpart, hjpart, hipart⟩ := partsOf_link hj hlt hlink
    exact ⟨part, hpart, hipart, hjpart⟩
  · obtain ⟨part, hpart, hipart⟩ := partsOf_cover hi
    exact ⟨part, hpart, hipart, hipart⟩
  · have hlink : linkedAt link items i j = true := by
      rw [linkedAt, ha, hb, ← h]
      rfl
    exact partsOf_link hi hlt hlink

end Zenod.UnionFind
