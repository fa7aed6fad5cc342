/-
Average linkage: groups of members are merged, the two most similar first,
where the similarity of two groups is the mean over the pairs of their members.

`Linked.unique`: the rule leaves no choice. `Linked.coarser`: what comes out
are unions of the groups that went in. `meanSim_append`: the mean over a union
is the mean of the two means, each weighted by its size.
-/
import Mathlib.Algebra.BigOperators.Group.List.Basic
import Mathlib.Algebra.BigOperators.Ring.List
import Mathlib.Algebra.Order.Field.Basic
import Mathlib.Data.List.Flatten
import Mathlib.Data.List.Forall2
import Mathlib.Data.List.GetD
import Mathlib.Data.List.Induction
import Mathlib.Data.List.Nodup
import Mathlib.Tactic.FieldSimp
import Mathlib.Tactic.Ring

namespace Zenod.Linkage

variable {α β K : Type}

/-! ## Means over pairs -/

section Means
variable [Field K] {sim : α → α → K} {xs xs' ys ys' zs : List α}

/-- The sum over the pairs of a member of one group and one of the other. -/
def pairSum (sim : α → α → K) (xs ys : List α) : K := (xs.map fun i => (ys.map (sim i)).sum).sum

def meanSim (sim : α → α → K) (xs ys : List α) : K := pairSum sim xs ys / (xs.length * ys.length)

theorem pairSum_append (xs ys zs : List α) : pairSum sim (xs ++ ys) zs = pairSum sim xs zs + pairSum sim ys zs := by
  simp [pairSum]

theorem pairSum_cons_right (x : α) (xs ys : List α) :
    pairSum sim ys (x :: xs) = (ys.map fun i => sim i x).sum + pairSum sim ys xs := by
  simp [pairSum, List.sum_map_add]

theorem pairSum_comm (hsim : ∀ i j, sim i j = sim j i) (xs ys : List α) : pairSum sim xs ys = pairSum sim ys xs := by
  induction xs with
  | nil => simp [pairSum]
  | cons x xs ih =>
    rw [pairSum_cons_right, ← ih]
    simp [pairSum, List.map_congr_left fun i _ => hsim x i]

theorem pairSum_perm (h : xs.Perm xs') (ys : List α) : pairSum sim xs ys = pairSum sim xs' ys :=
  (h.map _).sum_eq

theorem meanSim_comm (hsim : ∀ i j, sim i j = sim j i) (xs ys : List α) : meanSim sim xs ys = meanSim sim ys xs := by
  rw [meanSim, meanSim, pairSum_comm hsim, mul_comm]

theorem meanSim_perm (h : xs.Perm xs') (ys : List α) : meanSim sim xs ys = meanSim sim xs' ys := by
  rw [meanSim, meanSim, pairSum_perm h, h.length_eq]

/-- **The mean over a union** is that of the two means, each weighted by its size. -/
theorem meanSim_append [CharZero K] (hxs : xs ≠ []) (hys : ys ≠ []) (hzs : zs ≠ []) :
    meanSim sim (xs ++ ys) zs =
      (xs.length * meanSim sim xs zs + ys.length * meanSim sim ys zs) / (xs.length + ys.length) := by
  have hx : (xs.length : K) ≠ 0 := Nat.cast_ne_zero.2 (by simpa using hxs)
  have hy : (ys.length : K) ≠ 0 := Nat.cast_ne_zero.2 (by simpa using hys)
  have hz : (zs.length : K) ≠ 0 := Nat.cast_ne_zero.2 (by simpa using hzs)
  have hxy : (xs.length : K) + ys.length ≠ 0 := by
    rw [← Nat.cast_add]
    exact Nat.cast_ne_zero.2 (by simp [hxs])
  rw [meanSim, meanSim, meanSim, pairSum_append, List.length_append, Nat.cast_add]
  field_simp

end Means

/-! ## The first of the greatest -/

section First
variable [LinearOrder K] (score : β → K)

/-- One more element against the best one so far. -/
def keepFirst (best : Option β) (x : β) : Option β :=
  match best with
  | none => some x
  | some y => if score y < score x then some x else some y

variable {score}

theorem keepFirst_isSome (best : Option β) (x : β) : (keepFirst score best x).isSome = true := by
  unfold keepFirst
  split
  · rfl
  · split <;> rfl

theorem foldl_keepFirst_none {l : List β} (h : l.foldl (keepFirst score) none = none) : l = [] := by
  induction l using List.reverseRecOn with
  | nil => rfl
  | append_singleton l x _ =>
    rw [List.foldl_append] at h
    have hsome : (keepFirst score (l.foldl (keepFirst score) none) x).isSome = true := keepFirst_isSome _ x
    simp only [List.foldl_cons, List.foldl_nil] at h
    rw [h] at hsome
    cases hsome

/-- **What is kept is the first of the greatest.** -/
theorem foldl_keepFirst {l : List β} {x : β} (h : l.foldl (keepFirst score) none = some x) :
    ∃ pre post, l = pre ++ x :: post ∧ (∀ y ∈ pre, score y < score x) ∧ ∀ y ∈ post, score y ≤ score x := by
  induction l using List.reverseRecOn generalizing x with
  | nil => cases h
  | append_singleton l z ih =>
    rw [List.foldl_append] at h
    simp only [List.foldl_cons, List.foldl_nil] at h
    cases hbest : l.foldl (keepFirst score) none with
    | none =>
      rw [hbest] at h
      cases h
      obtain rfl := foldl_keepFirst_none hbest
      exact ⟨[], [], rfl, by simp, by simp⟩
    | some y =>
      rw [hbest] at h
      obtain ⟨pre, post, rfl, hpre, hpost⟩ := ih hbest
      simp only [keepFirst] at h
      split at h
      next hlt =>
        cases h
        refine ⟨pre ++ y :: post, [], by simp, fun w hw => ?_, by simp⟩
        rcases List.mem_append.1 hw with hw | hw
        · exact (hpre w hw).trans hlt
        · rcases List.mem_cons.1 hw with rfl | hw
          · exact hlt
          · exact (hpost w hw).trans_lt hlt
      next hle =>
        cases h
        refine ⟨pre, post ++ [z], by simp, hpre, fun w hw => ?_⟩
        rcases List.mem_append.1 hw with hw | hw
        · exact hpost w hw
        · rw [List.mem_singleton.1 hw]
          exact not_lt.1 hle

end First

/-! ## The best pair -/

/-- The pairs of positions of a list, row by row. -/
def pairsOf (l : List Nat) : List (Nat × Nat) := l.flatMap fun a => (l.filter (a < ·)).map fun b => (a, b)

/-- One pair stands before another: in an earlier row, or earlier in its row. -/
def Before (p q : Nat × Nat) : Prop := p.1 < q.1 ∨ (p.1 = q.1 ∧ p.2 < q.2)

theorem mem_pairsOf {l : List Nat} {p : Nat × Nat} : p ∈ pairsOf l ↔ p.1 ∈ l ∧ p.2 ∈ l ∧ p.1 < p.2 := by
  obtain ⟨a, b⟩ := p
  simp [pairsOf]

theorem pairsOf_sorted {l : List Nat} (hl : l.Pairwise (· < ·)) : (pairsOf l).Pairwise Before := by
  rw [pairsOf, List.pairwise_flatMap]
  constructor
  · intro a _
    rw [List.pairwise_map]
    exact (hl.filter _).imp fun hbc => Or.inr ⟨rfl, hbc⟩
  · refine hl.imp fun {a b} hab p hp q hq => Or.inl ?_
    simp only [List.mem_map, List.mem_filter] at hp hq
    obtain ⟨c, -, rfl⟩ := hp
    obtain ⟨d, -, rfl⟩ := hq
    exact hab

section Best
variable [LinearOrder K] {score : Nat → Nat → K} {n i j i' j' : Nat}

/-- **The pair kept** of those of an ascending list is the first of the greatest. -/
theorem foldl_pairsOf {l : List Nat} (hl : l.Pairwise (· < ·)) {value : β → K} {entry : Nat → Nat → β} {x : β}
    (h : ((pairsOf l).map fun p => entry p.1 p.2).foldl (keepFirst value) none = some x) :
    ∃ a b, x = entry a b ∧ (a, b) ∈ pairsOf l ∧ (∀ p ∈ pairsOf l, value (entry p.1 p.2) ≤ value x) ∧
      ∀ p ∈ pairsOf l, Before p (a, b) → value (entry p.1 p.2) < value x := by
  obtain ⟨pre, post, hlist, hpre, hpost⟩ := foldl_keepFirst h
  obtain ⟨l₁, l₂, hpairs, rfl, htail⟩ := List.map_eq_append_iff.1 hlist
  obtain ⟨q, l₃, rfl, rfl, rfl⟩ := List.map_eq_cons_iff.1 htail
  have hsorted := pairsOf_sorted hl
  rw [hpairs, List.pairwise_append, List.pairwise_cons] at hsorted
  obtain ⟨-, ⟨hafter, -⟩, -⟩ := hsorted
  rw [hpairs]
  refine ⟨q.1, q.2, rfl, by simp, fun p hp => ?_, fun p hp hbefore => ?_⟩
  · rcases List.mem_append.1 hp with hp | hp
    · exact (hpre _ (List.mem_map_of_mem hp)).le
    · rcases List.mem_cons.1 hp with rfl | hp
      · exact le_rfl
      · exact hpost _ (List.mem_map_of_mem hp)
  · rcases List.mem_append.1 hp with hp | hp
    · exact hpre _ (List.mem_map_of_mem hp)
    · rcases List.mem_cons.1 hp with rfl | hp
      · simp [Before] at hbefore
      · have hlater := hafter p hp
        simp only [Before] at hbefore hlater
        omega

/-- The pair of positions with the greatest score, the first one in the order of rows. -/
structure IsBest (score : Nat → Nat → K) (n i j : Nat) : Prop where
  lt : i < j
  bound : j < n
  greatest : ∀ i' j', i' < j' → j' < n → score i' j' ≤ score i j
  first : ∀ i' j', i' < j' → j' < n → Before (i', j') (i, j) → score i' j' < score i j

theorem IsBest.unique (h : IsBest score n i j) (h' : IsBest score n i' j') : i = i' ∧ j = j' := by
  by_contra hne
  have hle := h.greatest i' j' h'.lt h'.bound
  have hle' := h'.greatest i j h.lt h.bound
  by_cases hbefore : Before (i, j) (i', j')
  · exact absurd (h'.first i j h.lt h.bound hbefore) (not_lt.2 hle)
  · refine absurd (h.first i' j' h'.lt h'.bound ?_) (not_lt.2 hle')
    simp only [Before] at hbefore ⊢
    omega

theorem exists_isBest (hn : 2 ≤ n) : ∃ i j, IsBest score n i j := by
  have hmem : ∀ {i j}, (i, j) ∈ pairsOf (List.range n) ↔ i < j ∧ j < n := by
    intro i j
    simp only [mem_pairsOf, List.mem_range]
    omega
  cases hbest : (((pairsOf (List.range n)).map fun p => (p.1, p.2)).foldl (keepFirst fun p => score p.1 p.2) none) with
  | none =>
    have hnil := foldl_keepFirst_none hbest
    rw [List.map_eq_nil_iff] at hnil
    have hfirst : (0, 1) ∈ pairsOf (List.range n) := hmem.2 (by omega)
    rw [hnil] at hfirst
    cases hfirst
  | some x =>
    obtain ⟨a, b, rfl, hab, hgreatest, hfirst⟩ := foldl_pairsOf List.pairwise_lt_range hbest
    obtain ⟨hlt, hbound⟩ := hmem.1 hab
    exact ⟨a, b, hlt, hbound, fun i' j' h h' => hgreatest (i', j') (hmem.2 ⟨h, h'⟩),
      fun i' j' h h' => hfirst (i', j') (hmem.2 ⟨h, h'⟩)⟩

end Best

/-! ## Merging -/

section Merging
variable (join : List α → List α → List α)

/-- The groups with the one at `j` put into the one at `i`. -/
def mergeAt (groups : List (List α)) (i j : Nat) : List (List α) :=
  (groups.set i (join (groups.getD i []) (groups.getD j []))).eraseIdx j

variable {join} {groups result : List (List α)} {i j : Nat}

theorem exists_split (hij : i < j) (hj : j < groups.length) : ∃ pre x mid y post,
    groups = pre ++ x :: (mid ++ y :: post) ∧ pre.length = i ∧ pre.length + 1 + mid.length = j := by
  have hi : i < groups.length := hij.trans hj
  refine ⟨groups.take i, groups[i], (groups.drop (i + 1)).take (j - i - 1), groups[j], groups.drop (j + 1), ?_, ?_, ?_⟩
  · have hdrop : (groups.drop (i + 1)).drop (j - i - 1) = groups[j] :: groups.drop (j + 1) := by
      rw [List.drop_drop, show i + 1 + (j - i - 1) = j by omega]
      exact List.drop_eq_getElem_cons hj
    rw [← hdrop, List.take_append_drop, List.getElem_cons_drop, List.take_append_drop]
  · simp; omega
  · simp; omega

theorem mergeAt_split (pre mid post : List (List α)) (x y : List α) :
    mergeAt join (pre ++ x :: (mid ++ y :: post)) pre.length (pre.length + 1 + mid.length) =
      pre ++ join x y :: (mid ++ post) := by
  have hx : (pre ++ x :: (mid ++ y :: post)).getD pre.length [] = x := by simp
  have hy : (pre ++ x :: (mid ++ y :: post)).getD (pre.length + 1 + mid.length) [] = y := by
    rw [List.getD_append_right _ _ _ _ (by omega), show pre.length + 1 + mid.length - pre.length = mid.length + 1 by omega]
    simp
  rw [mergeAt, hx, hy, List.set_append_right _ _ (Nat.le_refl _), Nat.sub_self, List.set_cons_zero,
    List.eraseIdx_append_of_length_le (by omega), show pre.length + 1 + mid.length - pre.length = mid.length + 1 by omega,
    List.eraseIdx_cons_succ, List.eraseIdx_append_of_length_le (Nat.le_refl _), Nat.sub_self, List.eraseIdx_cons_zero]

/-- **A merge keeps the members.** -/
theorem flatten_mergeAt (hjoin : ∀ x y, (join x y).Perm (x ++ y)) (hij : i < j) (hj : j < groups.length) :
    (mergeAt join groups i j).flatten.Perm groups.flatten := by
  obtain ⟨pre, x, mid, y, post, rfl, rfl, rfl⟩ := exists_split hij hj
  rw [mergeAt_split]
  simp only [List.flatten_append, List.flatten_cons]
  refine List.Perm.append_left _ ?_
  calc join x y ++ (mid.flatten ++ post.flatten)
      _ |>.Perm (x ++ y ++ (mid.flatten ++ post.flatten)) := (hjoin x y).append_right _
      _ |>.Perm (x ++ (mid.flatten ++ (y ++ post.flatten))) := by
        rw [List.append_assoc]
        refine List.Perm.append_left _ ?_
        rw [← List.append_assoc, ← List.append_assoc]
        exact List.perm_append_comm.append_right _

/-- The second partition is a coarsening of the first: each of its groups is the union of some of the first. -/
def Coarser (groups result : List (List α)) : Prop :=
  ∃ parts : List (List (List α)), parts.flatten.Perm groups ∧
    List.Forall₂ (fun part g => part ≠ [] ∧ part.flatten.Perm g) parts result

theorem Coarser.refl (groups : List (List α)) : Coarser groups groups := by
  refine ⟨groups.map fun g => [g], ?_, ?_⟩
  · have hflatten : (groups.map fun g => [g]).flatten = groups := by
      induction groups with
      | nil => rfl
      | cons g groups ih => simp [ih]
    rw [hflatten]
  · rw [List.forall₂_map_left_iff]
    exact List.forall₂_same.2 fun g _ => ⟨List.cons_ne_nil _ _, by simp⟩

theorem forall₂_getD {γ δ : Type} {R : γ → δ → Prop} {l : List γ} {l' : List δ} (h : List.Forall₂ R l l') {c : γ} {d : δ}
    (hi : i < l.length) : R (l.getD i c) (l'.getD i d) := by
  induction h generalizing i with
  | nil => simp at hi
  | cons hfirst _ ih =>
    cases i with
    | zero => exact hfirst
    | succ i => exact ih (by simpa using hi)

theorem forall₂_set {γ δ : Type} {R : γ → δ → Prop} {l : List γ} {l' : List δ} (h : List.Forall₂ R l l') {c : γ} {d : δ}
    (hcd : R c d) (i : Nat) : List.Forall₂ R (l.set i c) (l'.set i d) := by
  induction h generalizing i with
  | nil => exact .nil
  | cons hfirst hrest ih =>
    cases i with
    | zero => exact .cons hcd hrest
    | succ i => exact .cons hfirst (ih i)

theorem forall₂_eraseIdx {γ δ : Type} {R : γ → δ → Prop} {l : List γ} {l' : List δ} (h : List.Forall₂ R l l') (i : Nat) :
    List.Forall₂ R (l.eraseIdx i) (l'.eraseIdx i) := by
  induction h generalizing i with
  | nil => exact .nil
  | cons hfirst hrest ih =>
    cases i with
    | zero => exact hrest
    | succ i => exact .cons hfirst (ih i)

/-- **A merge keeps a coarsening.** -/
theorem Coarser.mergeAt (h : Coarser groups result) (hjoin : ∀ x y, (join x y).Perm (x ++ y)) (hij : i < j)
    (hj : j < result.length) : Coarser groups (mergeAt join result i j) := by
  obtain ⟨parts, hperm, hforall⟩ := h
  have hlength := hforall.length_eq
  have hi := forall₂_getD (i := i) hforall (c := []) (d := []) (by omega)
  have hj' := forall₂_getD (i := j) hforall (c := []) (d := []) (by omega)
  refine ⟨Linkage.mergeAt (· ++ ·) parts i j, (flatten_mergeAt (fun _ _ => .refl _) hij (by omega)).trans hperm, ?_⟩
  refine forall₂_eraseIdx (forall₂_set hforall ⟨?_, ?_⟩ i) j
  · exact List.append_ne_nil_of_left_ne_nil hi.1 _
  · rw [List.flatten_append]
    exact (hi.2.append hj'.2).trans (hjoin _ _).symm

end Merging

/-! ## Average linkage -/

section Average
variable [Field K] [LinearOrder K] (sim : α → α → K) (join : List α → List α → List α) (continues : K → Nat → Prop)

/-- The mean similarity of the groups at two positions. -/
def groupSim (groups : List (List α)) (i j : Nat) : K := meanSim sim (groups.getD i []) (groups.getD j [])

/-- The best pair is merged as long as its similarity and the number of groups say so. -/
inductive Linked : List (List α) → List (List α) → Prop
  | stop {groups} (h : ∀ i j, IsBest (groupSim sim groups) groups.length i j →
      ¬continues (groupSim sim groups i j) groups.length) : Linked groups groups
  | merge {groups result i j} (hbest : IsBest (groupSim sim groups) groups.length i j)
      (hgoes : continues (groupSim sim groups i j) groups.length) (h : Linked (mergeAt join groups i j) result) :
      Linked groups result

variable {sim join continues} {groups result result' : List (List α)}

/-- **The rule leaves no choice.** -/
theorem Linked.unique (h : Linked sim join continues groups result) (h' : Linked sim join continues groups result') :
    result = result' := by
  induction h with
  | stop hstop =>
    cases h' with
    | stop => rfl
    | merge hbest hgoes => exact absurd hgoes (hstop _ _ hbest)
  | merge hbest hgoes _ ih =>
    cases h' with
    | stop hstop => exact absurd hgoes (hstop _ _ hbest)
    | merge hbest' _ h' =>
      obtain ⟨rfl, rfl⟩ := hbest.unique hbest'
      exact ih h'

/-- **What comes out is a coarsening** of what went in. -/
theorem Linked.coarser (hjoin : ∀ x y, (join x y).Perm (x ++ y)) (h : Linked sim join continues groups result) :
    Coarser groups result := by
  have hall : ∀ base, Coarser base groups → Coarser base result := by
    induction h with
    | stop => exact fun _ hbase => hbase
    | merge hbest _ _ ih => exact fun base hbase => ih base (hbase.mergeAt hjoin hbest.lt hbest.bound)
  exact hall groups (.refl groups)

/-- At most one group is left, or the rule could stop. -/
theorem Linked.stops (h : Linked sim join continues groups result) :
    result.length ≤ 1 ∨ ∃ s, ¬continues s result.length := by
  induction h with
  | @stop groups hstop =>
    by_cases hfew : groups.length ≤ 1
    · exact .inl hfew
    · have hmany : 2 ≤ groups.length := by omega
      obtain ⟨i, j, hbest⟩ : ∃ i j, IsBest (groupSim sim groups) groups.length i j := exists_isBest hmany
      exact .inr ⟨_, hstop i j hbest⟩
  | merge _ _ _ ih => exact ih

end Average

end Zenod.Linkage
