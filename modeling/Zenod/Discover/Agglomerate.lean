/-
How pages are grouped into topics (`agglomerate` of `engine/treeDiscover.ts`):
the similarities between groups are kept in one matrix, which a merge updates
in place with the mean of two rows weighted by the sizes of the groups, and
the rows of groups that are gone stay behind.

`agglomerate_linked`: the result is that of average linkage, which computes
the mean over the pairs of members anew for every two groups.
-/
import Mathlib.Algebra.Order.WithTop.Untop0
import Mathlib.Data.List.Sort
import Zenod.Lib.Linkage

namespace Zenod.Discover

open Linkage

/-! ## The code -/

variable {n : Nat}

/-- `sort((x, y) => x - y)` of the members of two groups. -/
def joined (g h : List (Fin n)) : List (Fin n) := (g ++ h).insertionSort (· ≤ ·)

structure Best where
  a : Nat
  b : Nat
  s : ℚ

/-- The groups by their first position, the similarities between positions, and the positions in use. -/
structure Clusters (n : Nat) where
  live : Nat → List (Fin n)
  between : Nat → Nat → ℚ
  alive : List Nat

/-- `total / (live[a].length * live[b].length)`. -/
def meanBetween (sim : Fin n → Fin n → ℚ) (g h : List (Fin n)) : ℚ :=
  g.foldl (fun total i => h.foldl (fun total j => total + sim i j) total) 0 / (g.length * h.length)

/-- The matrix is filled with zeros, then above the diagonal and across it. -/
def Clusters.start (groups : List (List (Fin n))) (sim : Fin n → Fin n → ℚ) : Clusters n where
  live i := groups.getD i []
  between a b :=
    if a < b then meanBetween sim (groups.getD a []) (groups.getD b [])
    else if b < a then meanBetween sim (groups.getD b []) (groups.getD a [])
    else 0
  alive := List.range groups.length

def Clusters.best (c : Clusters n) : Option Best :=
  c.alive.foldl (fun best a => c.alive.foldl (fun best b =>
    if b ≤ a then best else keepFirst Best.s best ⟨a, b, c.between a b⟩) best) none

/-- `between[a][k] = between[k][a] = s`. -/
def setBoth (between : Nat → Nat → ℚ) (a k : Nat) (s : ℚ) : Nat → Nat → ℚ := fun i j =>
  if (i = a ∧ j = k) ∨ (i = k ∧ j = a) then s else between i j

def Clusters.merge (c : Clusters n) (a b : Nat) : Clusters n where
  live := Function.update c.live a (joined (c.live a) (c.live b))
  between :=
    let na : ℚ := (c.live a).length
    let nb : ℚ := (c.live b).length
    c.alive.foldl (fun between k =>
      if k = a ∨ k = b then between
      else setBoth between a k ((na * between a k + nb * between b k) / (na + nb))) c.between
  alive := c.alive.erase b

/-- The two loops run through the pairs of positions in use. -/
theorem Clusters.best_eq (c : Clusters n) : c.best =
    ((pairsOf c.alive).map fun p => (⟨p.1, p.2, c.between p.1 p.2⟩ : Best)).foldl (keepFirst Best.s) none := by
  rw [Clusters.best, pairsOf, List.foldl_map, List.foldl_flatMap]
  congr 1
  funext best a
  rw [List.foldl_map, List.foldl_filter]
  congr 1
  funext best b
  simp only [decide_eq_true_eq]
  split <;> split <;> first | rfl | omega

theorem Clusters.best_mem {c : Clusters n} {x : Best} (h : c.best = some x) : x.b ∈ c.alive := by
  rw [c.best_eq] at h
  obtain ⟨pre, post, hlist, -⟩ := foldl_keepFirst h
  have hx : x ∈ (pairsOf c.alive).map fun p => (⟨p.1, p.2, c.between p.1 p.2⟩ : Best) := by rw [hlist]; simp
  obtain ⟨p, hp, rfl⟩ := List.mem_map.1 hx
  exact (mem_pairsOf.1 hp).2.1

/-- The loop: a merge takes one position out of use. -/
def Clusters.run (threshold : ℚ) (maxGroups : WithTop ℚ) (c : Clusters n) : Clusters n :=
  match _hbest : c.best with
  | none => c
  | some best =>
    if best.s < threshold ∧ (c.alive.length : WithTop ℚ) ≤ maxGroups then c
    else (c.merge best.a best.b).run threshold maxGroups
termination_by c.alive.length
decreasing_by
  have hmem := Clusters.best_mem _hbest
  have hpos := List.length_pos_of_mem hmem
  have hlength := List.length_erase_of_mem hmem
  simp only [Clusters.merge]
  omega

def agglomerate (groups : List (List (Fin n))) (sim : Fin n → Fin n → ℚ) (threshold : ℚ) (maxGroups : WithTop ℚ) :
    List (List (Fin n)) :=
  let c := (Clusters.start groups sim).run threshold maxGroups
  c.alive.map c.live

/-! ## The loops -/

theorem meanBetween_eq (sim : Fin n → Fin n → ℚ) (g h : List (Fin n)) : meanBetween sim g h = meanSim sim g h := by
  have hinner : ∀ (i : Fin n) (h : List (Fin n)) (total : ℚ),
      h.foldl (fun total j => total + sim i j) total = total + (h.map (sim i)).sum := by
    intro i h
    induction h with
    | nil => simp
    | cons j h ih => intro total; simp [ih, add_assoc]
  have houter : ∀ (g : List (Fin n)) (total : ℚ),
      g.foldl (fun total i => h.foldl (fun total j => total + sim i j) total) total = total + pairSum sim g h := by
    intro g
    induction g with
    | nil => simp [pairSum]
    | cons i g ih =>
      intro total
      rw [List.foldl_cons, ih, hinner, add_assoc]
      simp [pairSum]
  rw [meanBetween, meanSim, houter, zero_add]

variable {c : Clusters n} {sim : Fin n → Fin n → ℚ} {groups : List (List (Fin n))} {a b k : Nat}

theorem Clusters.best_none (h : c.best = none) : pairsOf c.alive = [] := by
  rw [c.best_eq] at h
  simpa using foldl_keepFirst_none h

theorem Clusters.best_some {x : Best} (hsorted : c.alive.Pairwise (· < ·)) (h : c.best = some x) :
    (x.a, x.b) ∈ pairsOf c.alive ∧ x.s = c.between x.a x.b ∧ (∀ p ∈ pairsOf c.alive, c.between p.1 p.2 ≤ x.s) ∧
      ∀ p ∈ pairsOf c.alive, Before p (x.a, x.b) → c.between p.1 p.2 < x.s := by
  rw [c.best_eq] at h
  obtain ⟨a, b, rfl, hab, hgreatest, hfirst⟩ :=
    @foldl_pairsOf _ _ _ c.alive hsorted _ (fun a b => (⟨a, b, c.between a b⟩ : Best)) x h
  exact ⟨hab, rfl, hgreatest, hfirst⟩

/-- The entry that a merge computes from the rows of two groups of the sizes `x` and `y`. -/
def weighted (x y : ℚ) (between : Nat → Nat → ℚ) (a b k : Nat) : ℚ := (x * between a k + y * between b k) / (x + y)

theorem setBoth_apply (between : Nat → Nat → ℚ) (a k : Nat) (s : ℚ) (i j : Nat) :
    setBoth between a k s i j = if (i = a ∧ j = k) ∨ (i = k ∧ j = a) then s else between i j := rfl

theorem foldl_setBoth {x y : ℚ} (hb : b ≠ a) {l : List Nat} (hl : l.Nodup) (between : Nat → Nat → ℚ) (i j : Nat) :
    l.foldl (fun between k => if k = a ∨ k = b then between else setBoth between a k (weighted x y between a b k))
        between i j =
      if i = a ∧ j ∈ l ∧ j ≠ a ∧ j ≠ b then weighted x y between a b j
      else if j = a ∧ i ∈ l ∧ i ≠ a ∧ i ≠ b then weighted x y between a b i
      else between i j := by
  induction l generalizing between with
  | nil => simp
  | cons k l ih =>
    obtain ⟨hk, hl⟩ := List.nodup_cons.1 hl
    rw [List.foldl_cons, ih hl]
    by_cases hkept : k = a ∨ k = b
    · rw [if_pos hkept]
      grind
    · -- The entries of the other positions are as they were.
      have hother : ∀ m, m ≠ k → m ≠ a → weighted x y (setBoth between a k (weighted x y between a b k)) a b m =
          weighted x y between a b m := by
        intro m hmk hma
        simp [weighted, setBoth, hmk, hma]
      rw [if_neg hkept]
      simp only [List.mem_cons]
      by_cases hi : i = a <;> by_cases hj : j = a <;> grind [setBoth_apply]

/-- What a merge does to the matrix: it computes the row and the column of the group that stays. -/
theorem Clusters.between_merge (hnodup : c.alive.Nodup) (hb : b ≠ a) (i j : Nat) :
    (c.merge a b).between i j =
      if i = a ∧ j ∈ c.alive ∧ j ≠ a ∧ j ≠ b then weighted (c.live a).length (c.live b).length c.between a b j
      else if j = a ∧ i ∈ c.alive ∧ i ≠ a ∧ i ≠ b then weighted (c.live a).length (c.live b).length c.between a b i
      else c.between i j :=
  foldl_setBoth hb hnodup c.between i j

/-! ## The matrix under the groups -/

/-- The matrix holds the mean similarities of the groups in use. -/
structure Clusters.Tracks (sim : Fin n → Fin n → ℚ) (c : Clusters n) (groups : List (List (Fin n))) : Prop where
  sorted : c.alive.Pairwise (· < ·)
  groups_eq : groups = c.alive.map c.live
  nonempty : ∀ a ∈ c.alive, c.live a ≠ []
  between : ∀ a ∈ c.alive, ∀ b ∈ c.alive, a ≠ b → c.between a b = meanSim sim (c.live a) (c.live b)

theorem Clusters.start_tracks (hsim : ∀ i j, sim i j = sim j i) (hgroups : ∀ g ∈ groups, g ≠ []) :
    (Clusters.start groups sim).Tracks sim groups where
  sorted := List.pairwise_lt_range
  groups_eq := by
    refine List.ext_getElem (by simp [Clusters.start]) fun i h _ => ?_
    simp [Clusters.start, h]
  nonempty a ha := by
    have ha : a < groups.length := List.mem_range.1 ha
    simp only [Clusters.start, List.getD_eq_getElem _ _ ha]
    exact hgroups _ (List.getElem_mem ha)
  between a _ b _ hab := by
    simp only [Clusters.start, meanBetween_eq]
    split
    next => rfl
    next hnot =>
      rw [if_pos (by omega)]
      exact meanSim_comm hsim _ _

theorem joined_perm (g h : List (Fin n)) : (joined g h).Perm (g ++ h) := List.perm_insertionSort _ _

namespace Clusters.Tracks

variable (h : c.Tracks sim groups)
include h

theorem nodup : c.alive.Nodup := h.sorted.imp Nat.ne_of_lt

theorem length_eq : groups.length = c.alive.length := by rw [h.groups_eq, List.length_map]

theorem getD_eq {i : Nat} (hi : i < c.alive.length) : groups.getD i [] = c.live c.alive[i] := by
  rw [h.groups_eq]
  simp [hi]

theorem groupSim_eq {i j : Nat} (hi : i < c.alive.length) (hj : j < c.alive.length) (hij : i ≠ j) :
    groupSim sim groups i j = c.between c.alive[i] c.alive[j] := by
  have hne : c.alive[i] ≠ c.alive[j] := fun heq => hij (h.nodup.getElem_inj_iff.1 heq)
  rw [h.between _ (List.getElem_mem hi) _ (List.getElem_mem hj) hne, groupSim, h.getD_eq hi, h.getD_eq hj]

theorem getElem_lt {i j : Nat} (hi : i < c.alive.length) (hj : j < c.alive.length) :
    c.alive[i] < c.alive[j] ↔ i < j := by
  have hmono := List.pairwise_iff_getElem.1 h.sorted
  constructor
  · intro hlt
    by_contra hle
    rcases Nat.lt_or_eq_of_le (Nat.le_of_not_lt hle) with hji | rfl
    · exact absurd (hmono j i hj hi hji) (Nat.lt_asymm hlt)
    · exact Nat.lt_irrefl _ hlt
  · exact hmono i j hi hj

/-- **The loops find the best pair of groups.** -/
theorem isBest {x : Best} (hbest : c.best = some x) : ∃ (i j : Nat) (hi : i < c.alive.length) (hj : j < c.alive.length),
    x.a = c.alive[i] ∧ x.b = c.alive[j] ∧ IsBest (groupSim sim groups) groups.length i j ∧ x.s = groupSim sim groups i j := by
  obtain ⟨hmem, hs, hgreatest, hfirst⟩ := best_some h.sorted hbest
  obtain ⟨ha, hb, hlt⟩ := mem_pairsOf.1 hmem
  obtain ⟨i, hi, hia⟩ := List.getElem_of_mem ha
  obtain ⟨j, hj, hjb⟩ := List.getElem_of_mem hb
  simp only at hia hjb hlt
  rw [← hia, ← hjb, h.getElem_lt hi hj] at hlt
  have hsim : x.s = groupSim sim groups i j := by rw [hs, h.groupSim_eq hi hj (Nat.ne_of_lt hlt), hia, hjb]
  have hpair : ∀ {i' j'} (hi' : i' < j') (hj' : j' < groups.length), ∃ (hi'' : i' < c.alive.length)
      (hj'' : j' < c.alive.length), (c.alive[i'], c.alive[j']) ∈ pairsOf c.alive ∧
        groupSim sim groups i' j' = c.between c.alive[i'] c.alive[j'] := by
    intro i' j' hi' hj'
    rw [h.length_eq] at hj'
    have hi'' : i' < c.alive.length := hi'.trans hj'
    exact ⟨hi'', hj', mem_pairsOf.2 ⟨List.getElem_mem hi'', List.getElem_mem hj', (h.getElem_lt hi'' hj').2 hi'⟩,
      h.groupSim_eq hi'' hj' (Nat.ne_of_lt hi')⟩
  refine ⟨i, j, hi, hj, hia.symm, hjb.symm, ⟨hlt, h.length_eq ▸ hj, fun i' j' hi' hj' => ?_, fun i' j' hi' hj' hbefore => ?_⟩,
    hsim⟩
  · obtain ⟨_, _, hpairs, hbetween⟩ := hpair hi' hj'
    rw [hbetween, ← hsim]
    exact hgreatest _ hpairs
  · obtain ⟨hi'', hj'', hpairs, hbetween⟩ := hpair hi' hj'
    rw [hbetween, ← hsim]
    refine hfirst _ hpairs ?_
    simp only [Before, ← hia, ← hjb] at hbefore ⊢
    rcases hbefore with hrow | ⟨hrow, hcolumn⟩
    · exact .inl ((h.getElem_lt hi'' hi).2 hrow)
    · exact .inr ⟨by simp only [hrow], (h.getElem_lt hj'' hj).2 hcolumn⟩

/-- No pair is found among fewer than two groups. -/
theorem not_isBest (hbest : c.best = none) (i j : Nat) : ¬IsBest (groupSim sim groups) groups.length i j := by
  intro hij
  have hj : j < c.alive.length := h.length_eq ▸ hij.bound
  have hi : i < c.alive.length := hij.lt.trans hj
  have hmem : (c.alive[i], c.alive[j]) ∈ pairsOf c.alive :=
    mem_pairsOf.2 ⟨List.getElem_mem hi, List.getElem_mem hj, (h.getElem_lt hi hj).2 hij.lt⟩
  rw [best_none hbest] at hmem
  cases hmem

/-- **A merge keeps the matrix true.** -/
theorem merge (hsim : ∀ i j, sim i j = sim j i) {i j : Nat} (hij : i < j) (hj : j < c.alive.length) :
    (c.merge c.alive[i] c.alive[j]).Tracks sim (mergeAt joined groups i j) := by
  have hi : i < c.alive.length := hij.trans hj
  have hne : c.alive[j] ≠ c.alive[i] := fun heq => Nat.ne_of_gt hij (h.nodup.getElem_inj_iff.1 heq)
  have hia := List.getElem_mem hi
  have hjb := List.getElem_mem hj
  have hmem : ∀ {k}, k ∈ (c.merge c.alive[i] c.alive[j]).alive ↔ k ≠ c.alive[j] ∧ k ∈ c.alive :=
    fun {k} => h.nodup.mem_erase_iff
  have hlive : ∀ {k}, k ≠ c.alive[i] → (c.merge c.alive[i] c.alive[j]).live k = c.live k :=
    fun hk => Function.update_of_ne hk _ _
  have hself : (c.merge c.alive[i] c.alive[j]).live c.alive[i] = joined (c.live c.alive[i]) (c.live c.alive[j]) :=
    Function.update_self _ _ _
  -- The entry computed from two rows is the mean over the union.
  have hmean : ∀ {k}, k ∈ c.alive → k ≠ c.alive[i] → k ≠ c.alive[j] →
      weighted (c.live c.alive[i]).length (c.live c.alive[j]).length c.between c.alive[i] c.alive[j] k =
        meanSim sim (joined (c.live c.alive[i]) (c.live c.alive[j])) (c.live k) := by
    intro k hk hki hkj
    rw [weighted, h.between _ hia _ hk (Ne.symm hki), h.between _ hjb _ hk (Ne.symm hkj), meanSim_perm (joined_perm _ _),
      meanSim_append (h.nonempty _ hia) (h.nonempty _ hjb) (h.nonempty _ hk)]
  refine ⟨h.sorted.sublist List.erase_sublist, ?_, ?_, ?_⟩
  · rw [mergeAt, h.getD_eq hi, h.getD_eq hj]
    show _ = ((c.alive.erase c.alive[j]).map (Function.update c.live c.alive[i] _))
    rw [h.nodup.erase_getElem, ← List.eraseIdx_map]
    congr 1
    rw [h.groups_eq]
    refine List.ext_getElem (by simp) fun k hk hk' => ?_
    simp only [List.length_set, List.length_map] at hk
    simp only [List.getElem_set, List.getElem_map]
    by_cases hki : i = k
    · subst hki
      simp
    · have hka : c.alive[k] ≠ c.alive[i] := fun heq => hki (h.nodup.getElem_inj_iff.1 heq).symm
      rw [if_neg hki, Function.update_of_ne hka]
  · intro k hk
    obtain ⟨-, hk⟩ := hmem.1 hk
    by_cases hki : k = c.alive[i]
    · rw [hki, hself]
      intro hnil
      have hlength := (joined_perm (c.live c.alive[i]) (c.live c.alive[j])).length_eq
      have hpos := List.length_pos_iff.2 (h.nonempty _ hia)
      simp [hnil] at hlength
      omega
    · rw [hlive hki]
      exact h.nonempty k hk
  · intro k hk m hm hkm
    obtain ⟨hkj, hk⟩ := hmem.1 hk
    obtain ⟨hmj, hm⟩ := hmem.1 hm
    rw [between_merge h.nodup hne]
    by_cases hki : k = c.alive[i]
    · have hmi : m ≠ c.alive[i] := fun heq => hkm (hki.trans heq.symm)
      rw [if_pos ⟨hki, hm, hmi, hmj⟩, hmean hm hmi hmj, hki, hself, hlive hmi]
    · by_cases hmi : m = c.alive[i]
      · rw [if_neg (fun h => hki h.1), if_pos ⟨hmi, hk, hki, hkj⟩, hmean hk hki hkj, hmi, hself, hlive hki,
          meanSim_comm hsim]
      · rw [if_neg (fun h => hki h.1), if_neg (fun h => hmi h.1), hlive hki, hlive hmi]
        exact h.between k hk m hm hkm

end Clusters.Tracks

/-! ## The result -/

/-- Average linkage of groups of pages: the best pair is merged while it reaches the threshold or there are too many groups. -/
def AverageLinkage (sim : Fin n → Fin n → ℚ) (threshold : ℚ) (maxGroups : WithTop ℚ) :
    List (List (Fin n)) → List (List (Fin n)) → Prop :=
  Linked sim joined fun s k => threshold ≤ s ∨ maxGroups < (k : WithTop ℚ)

theorem Clusters.Tracks.run_linked (hsim : ∀ i j, sim i j = sim j i) {threshold : ℚ} {maxGroups : WithTop ℚ}
    (h : c.Tracks sim groups) : AverageLinkage sim threshold maxGroups groups
      ((c.run threshold maxGroups).alive.map (c.run threshold maxGroups).live) := by
  induction c using Clusters.run.induct threshold maxGroups generalizing groups with
  | case1 c hbest =>
    rw [Clusters.run]
    split
    next =>
      rw [← h.groups_eq]
      exact .stop fun i j hij => absurd hij (h.not_isBest hbest i j)
    next heq => rw [hbest] at heq; cases heq
  | case2 c best hbest hstop =>
    rw [Clusters.run]
    split
    next heq => rw [hbest] at heq; cases heq
    next best' heq =>
      rw [hbest] at heq
      cases heq
      rw [if_pos hstop, ← h.groups_eq]
      obtain ⟨i, j, hi, hj, -, -, hisBest, hs⟩ := h.isBest hbest
      refine .stop fun i' j' hij' => ?_
      obtain ⟨rfl, rfl⟩ := hisBest.unique hij'
      rw [← hs, h.length_eq, not_or, not_le, not_lt]
      exact hstop
  | case3 c best hbest hgoes ih =>
    rw [Clusters.run]
    split
    next heq => rw [hbest] at heq; cases heq
    next best' heq =>
      rw [hbest] at heq
      cases heq
      rw [if_neg hgoes]
      obtain ⟨i, j, hi, hj, ha, hb, hisBest, hs⟩ := h.isBest hbest
      refine .merge hisBest ?_ (ih ?_)
      · rw [← hs, h.length_eq]
        rcases not_and_or.1 hgoes with hreaches | hmany
        · exact .inl (not_lt.1 hreaches)
        · exact .inr (not_le.1 hmany)
      · rw [ha, hb]
        exact h.merge hsim hisBest.lt hj

/-- **The matrix gives average linkage**: `agglomerate` ends, in what the rule gives that computes every mean anew; its
groups are unions of the given ones, and no more than asked for. -/
theorem agglomerate_linked (groups : List (List (Fin n))) (sim : Fin n → Fin n → ℚ) (threshold : ℚ) (maxGroups : WithTop ℚ)
    (hsim : ∀ i j, sim i j = sim j i) (hgroups : ∀ g ∈ groups, g ≠ []) :
    (∀ result, AverageLinkage sim threshold maxGroups groups result ↔ result = agglomerate groups sim threshold maxGroups) ∧
      Coarser groups (agglomerate groups sim threshold maxGroups) ∧
      ((agglomerate groups sim threshold maxGroups).length : WithTop ℚ) ≤ max maxGroups 1 := by
  have hlinked : AverageLinkage sim threshold maxGroups groups (agglomerate groups sim threshold maxGroups) :=
    (Clusters.start_tracks hsim hgroups).run_linked hsim
  refine ⟨fun result => ⟨fun hresult => hresult.unique hlinked, fun hresult => hresult ▸ hlinked⟩, hlinked.coarser joined_perm, ?_⟩
  rcases hlinked.stops with hfew | ⟨s, hstop⟩
  · refine le_max_of_le_right ?_
    exact_mod_cast hfew
  · exact le_max_of_le_left (not_lt.1 (not_or.1 hstop).2)

/-- Three pages, the first two alike. -/
def threePages (i j : Fin 3) : ℚ := if i.val + j.val = 1 then 9 / 10 else 1 / 10

/-- Each page starts as its own group. -/
theorem threePages_linked : AverageLinkage threePages (1 / 2) ⊤ [[0], [1], [2]] (agglomerate [[0], [1], [2]] threePages (1 / 2) ⊤) :=
  ((agglomerate_linked [[0], [1], [2]] threePages (1 / 2) ⊤ (fun i j => by simp only [threePages, Nat.add_comm])
    (by decide)).1 _).2 rfl

end Zenod.Discover
