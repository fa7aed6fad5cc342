/-
The lineage of a page as a path of the tree (`createTreeIndex`): the walk up
`parent:` references, whatever they are, against what `lineage` and `children`
answer.
-/
import Zenod.Lib.Walk
import Zenod.Vault.Tree

namespace Zenod.Vault

open Text Walk

variable (lib : Library) (index : TreeIndex)

/-! ## Parents and children -/

/-- The page that the `parent:` of a page resolves to. -/
def TreeIndex.parentOf (f : PageTreeFields) : Option Text :=
  (f.parent.filter (· ≠ [])).bind fun ref =>
    if isTreeParentRef lib ref then none else (index.resolveRef lib ref).filter (· ≠ [])

/-- Direct children of a page: pages whose parent resolves to it, sorted. -/
def TreeIndex.children (path : Text) : List Text :=
  sort ((index.fields.filter fun e => index.parentOf lib e.2 = some path).map (·.1))

def TreeIndex.rootAt (path : Text) : Option TreeNode := lookup (index.rootsByPath lib) (lib.toLowerCase path)

/-- A page's resolved parent, if that is a tree page. -/
def TreeIndex.next (path : Text) : Option Text :=
  ((lookup index.fields path).bind (index.parentOf lib)).filter fun parent => (lookup index.fields parent).isSome

/-- What the walk notes of a page. -/
def TreeIndex.step (path : Text) : LineageStep where
  name := ((index.rootAt lib path).map (·.name)).getD (index.titleOf path)
  path := path

variable {lib index} {p q r start : Text} {k : Nat} {seen : List LineageStep} {node : TreeNode}

/-- A page is among its parent's children. -/
theorem mem_children (h : index.next lib p = some q) : p ∈ index.children lib q := by
  unfold TreeIndex.next at h
  rw [Option.filter_eq_some_iff] at h
  obtain ⟨f, hf, hparent⟩ := Option.bind_eq_some_iff.1 h.1
  unfold lookup at hf
  obtain ⟨e, he, rfl⟩ := Option.map_eq_some_iff.1 hf
  have hkey := List.find?_some he
  rw [decide_eq_true_eq] at hkey
  unfold TreeIndex.children sort
  rw [List.mem_insertionSort, List.mem_map]
  exact ⟨e, List.mem_filter.2 ⟨List.mem_of_find?_eq_some he, by rw [decide_eq_true_eq]; exact hparent⟩, hkey⟩

theorem next_isField (h : index.next lib p = some q) : (lookup index.fields q).isSome := by
  unfold TreeIndex.next at h
  exact (Option.filter_eq_some_iff.1 h).2

/-! ## The loop -/

/-- One round of the loop: it has been here, or it is at a root, or it goes on, or it is stuck. -/
theorem climb_seen (h : p ∈ seen.map (·.path)) (fuel : Nat) : index.climb lib start fuel p seen = .fail .cycle p seen := by
  cases fuel with
  | zero => rfl
  | succ fuel =>
    unfold TreeIndex.climb
    rw [if_pos (List.contains_iff_mem.2 h)]

theorem climb_root (h : p ∉ seen.map (·.path)) (hroot : index.rootAt lib p = some node) (fuel : Nat) :
    index.climb lib start (fuel + 1) p seen =
      if maxTreeDepth < (index.step lib p :: seen).length then .fail .tooDeep start (index.step lib p :: seen)
      else .ok node.kind node (index.step lib p :: seen) := by
  unfold TreeIndex.climb
  rw [if_neg (by rwa [List.contains_iff_mem])]
  unfold TreeIndex.rootAt at hroot
  unfold TreeIndex.step TreeIndex.rootAt
  simp only [hroot]

theorem climb_next (h : p ∉ seen.map (·.path)) (hroot : index.rootAt lib p = none) (hnext : index.next lib p = some q)
    (fuel : Nat) : index.climb lib start (fuel + 1) p seen = index.climb lib start fuel q (index.step lib p :: seen) := by
  conv_lhs => unfold TreeIndex.climb
  rw [if_neg (by rwa [List.contains_iff_mem])]
  have hfield := next_isField hnext
  unfold TreeIndex.next TreeIndex.parentOf at hnext
  obtain ⟨f, hf, hparent⟩ := Option.bind_eq_some_iff.1 (Option.filter_eq_some_iff.1 hnext).1
  obtain ⟨ref, href, hresolved⟩ := Option.bind_eq_some_iff.1 hparent
  split at hresolved
  next => cases hresolved
  next htree =>
    unfold TreeIndex.rootAt at hroot
    unfold TreeIndex.step TreeIndex.rootAt
    have hnone : ¬(lookup index.fields q).isNone = true := by
      rw [Option.isNone_iff_eq_none, ← Option.not_isSome_iff_eq_none, not_not]
      exact hfield
    simp only [hroot, hf, Option.bind_some, href, htree, hresolved]
    rw [if_neg (by simp), if_neg hnone]

/-- What is wrong with a page the walk cannot go on from. -/
def LineageFailure.isStuck (reason : LineageFailure) : Prop :=
  reason = .noParent ∨ reason = .noRoot ∨ reason = .unresolvedParent

theorem climb_stuck (h : p ∉ seen.map (·.path)) (hroot : index.rootAt lib p = none) (hnext : index.next lib p = none) :
    ∃ reason : LineageFailure, reason.isStuck ∧
      ∀ fuel, index.climb lib start (fuel + 1) p seen = .fail reason p (index.step lib p :: seen) := by
  have hcontains : ¬(seen.map (·.path)).contains p = true := by rwa [List.contains_iff_mem]
  have hstep : index.step lib p = ⟨((none : Option TreeNode).map (·.name)).getD (index.titleOf p), p⟩ := by
    unfold TreeIndex.step
    rw [hroot]
  have hnone : lookup (index.rootsByPath lib) (lib.toLowerCase p) = none := hroot
  cases hparent : (lookup index.fields p).bind (·.parent.filter (· ≠ [])) with
  | none =>
    refine ⟨.noParent, Or.inl rfl, fun fuel => ?_⟩
    unfold TreeIndex.climb
    rw [if_neg hcontains]
    simp only [hnone, hparent, hstep]
  | some parent =>
    by_cases htree : isTreeParentRef lib parent = true
    · refine ⟨.noRoot, Or.inr (Or.inl rfl), fun fuel => ?_⟩
      unfold TreeIndex.climb
      rw [if_neg hcontains]
      simp only [hnone, hparent, hstep]
      exact if_pos htree
    · refine ⟨.unresolvedParent, Or.inr (Or.inr rfl), fun fuel => ?_⟩
      unfold TreeIndex.climb
      rw [if_neg hcontains]
      simp only [hnone, hparent, hstep]
      rw [if_neg htree]
      split
      next => rfl
      next q hresolved =>
        refine if_pos ?_
        obtain ⟨f, hf, href⟩ := Option.bind_eq_some_iff.1 hparent
        by_contra hfield
        rw [Option.isNone_iff_eq_none, ← Option.not_isSome_iff_eq_none, not_not] at hfield
        have hsome : index.next lib p = some q := by
          unfold TreeIndex.next TreeIndex.parentOf
          rw [Option.filter_eq_some_iff, hf, Option.bind_some, href, Option.bind_some, if_neg htree]
          exact ⟨hresolved, hfield⟩
        rw [hnext] at hsome
        cases hsome

/-! ## Walks -/

theorem walk_isField (hp : (lookup index.fields p).isSome) (h : walk (index.next lib) k p = some q) :
    (lookup index.fields q).isSome := by
  cases k with
  | zero =>
    obtain rfl := Option.some.inj h
    exact hp
  | succ k =>
    rw [walk_succ] at h
    obtain ⟨r, -, hq⟩ := Option.bind_eq_some_iff.1 h
    exact next_isField hq

theorem mem_keys (h : (lookup index.fields p).isSome) : p ∈ index.fields.map (·.1) := by
  unfold lookup at h
  rw [Option.isSome_map] at h
  obtain ⟨e, he⟩ := Option.isSome_iff_exists.1 h
  have hkey := List.find?_some he
  rw [decide_eq_true_eq] at hkey
  exact List.mem_map.2 ⟨e, List.mem_of_find?_eq_some he, hkey⟩

/-- Pages that are not repeated are no more than there are. -/
theorem length_le_fields {pages : List Text} (hnodup : pages.Nodup) (h : ∀ q ∈ pages, (lookup index.fields q).isSome) :
    pages.length ≤ index.fields.length := by
  have hle := (hnodup.subperm fun q hq => mem_keys (h q hq)).length_le
  rwa [List.length_map] at hle

theorem length_trail_le (hp : (lookup index.fields p).isSome) (h : walk (index.next lib) k p = some r)
    (hnodup : (trail (index.next lib) k p).Nodup) : k < index.fields.length := by
  have hle := length_le_fields hnodup fun q hq => by
    obtain ⟨i, -, hi⟩ := mem_trail hq
    exact walk_isField hp hi
  rwa [length_trail h] at hle

/-- **A walk to a root**: the pages on it, the root first. -/
theorem climb_walk_root (hwalk : walk (index.next lib) k p = some r) (hroot : index.rootAt lib r = some node)
    (hfirst : ∀ i < k, ∀ q, walk (index.next lib) i p = some q → index.rootAt lib q = none)
    (hnodup : (trail (index.next lib) k p).Nodup)
    (hnew : ∀ q ∈ trail (index.next lib) k p, q ∉ seen.map (·.path)) {fuel : Nat} (hfuel : k < fuel) :
    index.climb lib start fuel p seen =
      if maxTreeDepth < ((trail (index.next lib) k p).map (index.step lib) ++ seen).length then
        .fail .tooDeep start ((trail (index.next lib) k p).map (index.step lib) ++ seen)
      else .ok node.kind node ((trail (index.next lib) k p).map (index.step lib) ++ seen) := by
  induction k generalizing p seen fuel with
  | zero =>
    obtain rfl := Option.some.inj hwalk
    obtain ⟨fuel, rfl⟩ := Nat.exists_eq_succ_of_ne_zero (Nat.pos_iff_ne_zero.1 hfuel)
    exact climb_root (hnew p (List.mem_singleton_self p)) hroot fuel
  | succ k ih =>
    obtain ⟨q, hnext, hq⟩ := Option.bind_eq_some_iff.1 hwalk
    obtain ⟨fuel, rfl⟩ := Nat.exists_eq_succ_of_ne_zero (Nat.ne_of_gt ((Nat.zero_le _).trans_lt hfuel))
    rw [trail_succ hnext] at hnodup hnew ⊢
    rw [List.nodup_append] at hnodup
    have hp : p ∉ seen.map (·.path) := hnew p (List.mem_append_right _ (List.mem_singleton_self p))
    rw [climb_next hp (hfirst 0 (Nat.succ_pos k) p rfl) hnext,
      ih hq (fun i hi u hu => hfirst (i + 1) (Nat.succ_lt_succ hi) u ?_) hnodup.1 (fun u hu => ?_) (Nat.lt_of_succ_lt_succ hfuel),
      List.map_append, List.append_assoc]
    · rfl
    · show (index.next lib p).bind _ = _
      rw [hnext]
      exact hu
    · rw [List.map_cons, List.mem_cons, not_or]
      exact ⟨hnodup.2.2 u hu p (List.mem_singleton_self p), hnew u (List.mem_append_left _ hu)⟩

/-- **A walk that ends before any root.** -/
theorem climb_walk_stuck (hwalk : walk (index.next lib) k p = some r) (hend : index.next lib r = none)
    (hroots : ∀ i ≤ k, ∀ q, walk (index.next lib) i p = some q → index.rootAt lib q = none)
    (hnodup : (trail (index.next lib) k p).Nodup)
    (hnew : ∀ q ∈ trail (index.next lib) k p, q ∉ seen.map (·.path)) {fuel : Nat} (hfuel : k < fuel) :
    ∃ reason : LineageFailure, reason.isStuck ∧ ∃ place steps, index.climb lib start fuel p seen = .fail reason place steps := by
  induction k generalizing p seen fuel with
  | zero =>
    obtain rfl := Option.some.inj hwalk
    obtain ⟨fuel, rfl⟩ := Nat.exists_eq_succ_of_ne_zero (Nat.pos_iff_ne_zero.1 hfuel)
    obtain ⟨reason, hreason, hclimb⟩ := @climb_stuck _ _ _ start _ (hnew p (List.mem_singleton_self p)) (hroots 0 (le_refl 0) p rfl) hend
    exact ⟨reason, hreason, _, _, hclimb fuel⟩
  | succ k ih =>
    obtain ⟨q, hnext, hq⟩ := Option.bind_eq_some_iff.1 hwalk
    obtain ⟨fuel, rfl⟩ := Nat.exists_eq_succ_of_ne_zero (Nat.ne_of_gt ((Nat.zero_le _).trans_lt hfuel))
    rw [trail_succ hnext] at hnodup hnew
    rw [List.nodup_append] at hnodup
    have hp : p ∉ seen.map (·.path) := hnew p (List.mem_append_right _ (List.mem_singleton_self p))
    rw [climb_next hp (hroots 0 (Nat.zero_le _) p rfl) hnext]
    refine ih hq (fun i hi u hu => hroots (i + 1) (Nat.succ_le_succ hi) u ?_) hnodup.1 (fun u hu => ?_) (Nat.lt_of_succ_lt_succ hfuel)
    · show (index.next lib p).bind _ = _
      rw [hnext]
      exact hu
    · rw [List.map_cons, List.mem_cons, not_or]
      exact ⟨hnodup.2.2 u hu p (List.mem_singleton_self p), hnew u (List.mem_append_left _ hu)⟩

/-- A walk that goes on for ever, past no root. -/
theorem climb_cycle (h : ∀ n, ∃ q, walk (index.next lib) n p = some q ∧ index.rootAt lib q = none) (fuel : Nat) :
    ∃ place steps, index.climb lib start fuel p seen = .fail .cycle place steps := by
  induction fuel generalizing p seen with
  | zero => exact ⟨p, seen, rfl⟩
  | succ fuel ih =>
    by_cases hseen : p ∈ seen.map (·.path)
    · exact ⟨p, seen, climb_seen hseen _⟩
    · obtain ⟨p', hp', hroot⟩ := h 0
      obtain rfl := Option.some.inj hp'
      obtain ⟨q, hq, -⟩ := h 1
      obtain ⟨q', hnext, hq'⟩ := Option.bind_eq_some_iff.1 hq
      rw [climb_next hseen hroot hnext]
      refine ih fun n => ?_
      obtain ⟨u, hu, huroot⟩ := h (n + 1)
      obtain ⟨v, hv, hvu⟩ := Option.bind_eq_some_iff.1 hu
      rw [hnext] at hv
      obtain rfl := Option.some.inj hv
      exact ⟨u, hvu, huroot⟩

/-- **The loop ends**: beyond the number of pages, more rounds change nothing. -/
theorem climb_fuel (hp : (lookup index.fields p).isSome) (hseen : ∀ q ∈ seen.map (·.path), (lookup index.fields q).isSome)
    (hnodup : (seen.map (·.path)).Nodup) {fuel : Nat} (hfuel : index.fields.length < fuel + seen.length) :
    index.climb lib start (fuel + 1) p seen = index.climb lib start fuel p seen := by
  induction fuel generalizing p seen with
  | zero =>
    have hle := length_le_fields hnodup hseen
    rw [List.length_map] at hle
    omega
  | succ fuel ih =>
    by_cases hmem : p ∈ seen.map (·.path)
    · rw [climb_seen hmem, climb_seen hmem]
    · cases hroot : index.rootAt lib p with
      | some node => rw [climb_root hmem hroot, climb_root hmem hroot]
      | none =>
        cases hnext : index.next lib p with
        | none =>
          obtain ⟨reason, -, hclimb⟩ := @climb_stuck _ _ _ start _ hmem hroot hnext
          rw [hclimb, hclimb]
        | some q =>
          rw [climb_next hmem hroot hnext, climb_next hmem hroot hnext]
          refine ih (next_isField hnext) (fun u hu => ?_) ?_ ?_
          · rcases List.mem_cons.1 hu with rfl | hu
            · exact hp
            · exact hseen u hu
          · exact List.nodup_cons.2 ⟨hmem, hnodup⟩
          · rw [List.length_cons]
            omega

variable (lib index) in
/-- The walk from `p` comes to its first root after `k` steps. -/
structure FirstRoot (p : Text) (k : Nat) (r : Text) (node : TreeNode) : Prop where
  walk : walk (index.next lib) k p = some r
  root : index.rootAt lib r = some node
  first : ∀ i < k, ∀ q, Walk.walk (index.next lib) i p = some q → index.rootAt lib q = none

/-- A walk comes to a root, or is stuck before one, or goes on for ever past none. -/
theorem walk_cases (lib : Library) (index : TreeIndex) (p : Text) :
    (∃ k r node, FirstRoot lib index p k r node) ∨
      (∃ k r, walk (index.next lib) k p = some r ∧ index.next lib r = none ∧
        ∀ i q, walk (index.next lib) i p = some q → index.rootAt lib q = none) ∨
      ∀ n, ∃ q, walk (index.next lib) n p = some q ∧ index.rootAt lib q = none := by
  classical
  by_cases hroot : ∃ k r, walk (index.next lib) k p = some r ∧ (index.rootAt lib r).isSome
  · refine Or.inl ?_
    obtain ⟨r, hr, hnode⟩ := Nat.find_spec hroot
    obtain ⟨node, hnode⟩ := Option.isSome_iff_exists.1 hnode
    refine ⟨Nat.find hroot, r, node, hr, hnode, fun i hi q hq => ?_⟩
    have hnot := Nat.find_min hroot hi
    rw [← Option.not_isSome_iff_eq_none]
    exact fun hsome => hnot ⟨q, hq, hsome⟩
  · have hnone : ∀ i q, walk (index.next lib) i p = some q → index.rootAt lib q = none := by
      intro i q hq
      rw [← Option.not_isSome_iff_eq_none]
      exact fun hsome => hroot ⟨i, q, hq, hsome⟩
    by_cases hend : ∃ n, walk (index.next lib) n p = none
    · have hpos : Nat.find hend ≠ 0 := by
        intro hzero
        have hspec := Nat.find_spec hend
        rw [hzero] at hspec
        cases hspec
      obtain ⟨k, hk⟩ := Nat.exists_eq_succ_of_ne_zero hpos
      have hsome : walk (index.next lib) k p ≠ none := Nat.find_min hend (by omega)
      obtain ⟨r, hr⟩ := Option.ne_none_iff_exists'.1 hsome
      refine Or.inr (Or.inl ⟨k, r, hr, ?_, hnone⟩)
      have hspec := Nat.find_spec hend
      rwa [hk, walk_succ, hr] at hspec
    · refine Or.inr (Or.inr fun n => ?_)
      obtain ⟨q, hq⟩ := Option.ne_none_iff_exists'.1 fun hn => hend ⟨n, hn⟩
      exact ⟨q, hq, hnone n q hq⟩

theorem FirstRoot.nodup (h : FirstRoot lib index p k r node) : (trail (index.next lib) k p).Nodup := by
  refine nodup_trail fun i j hij hj => walk_injective (P := fun q => index.rootAt lib q ≠ none) h.walk ?_ (fun i hi q hq => ?_) hij hj
  · rw [h.root]
    exact nofun
  · rw [not_not]
    exact h.first i hi q hq

/-- From a page on the way the first root is the same one. -/
theorem FirstRoot.of_walk {i : Nat} (h : FirstRoot lib index p k r node) (hi : i ≤ k)
    (hq : Walk.walk (index.next lib) i p = some q) :
    FirstRoot lib index q (k - i) r node := by
  obtain ⟨q', hq', hr⟩ := walk_of_le h.walk hi
  rw [hq] at hq'
  obtain rfl := Option.some.inj hq'
  refine ⟨hr, h.root, fun j hj u hu => h.first (i + j) (by omega) u ?_⟩
  rw [walk_add, hq]
  exact hu

/-- **The answer where the walk comes to a root.** -/
theorem lineage_of_firstRoot (hp : (lookup index.fields p).isSome) (h : FirstRoot lib index p k r node) :
    index.lineage lib p =
      if maxTreeDepth < k + 1 then .fail .tooDeep p ((trail (index.next lib) k p).map (index.step lib))
      else .ok node.kind node ((trail (index.next lib) k p).map (index.step lib)) := by
  have hk := length_trail_le hp h.walk h.nodup
  unfold TreeIndex.lineage
  rw [if_neg (by rwa [Option.isNone_iff_eq_none, ← Option.not_isSome_iff_eq_none, not_not]),
    climb_walk_root h.walk h.root h.first h.nodup (fun _ _ => List.not_mem_nil) (by omega),
    List.append_nil, List.length_map, length_trail h.walk]

/-! ## Lineages that are ok -/

variable (lib index) in
/-- A lineage as a path: from the first root on the walk down to the page. -/
structure FaithfulPath (p : Text) (group : MemoryKind) (root : TreeNode) (steps : List LineageStep) : Prop where
  head : ∃ s, steps.head? = some s ∧ index.rootAt lib s.path = some root ∧ group = root.kind
  first : ∀ s ∈ steps.tail, index.rootAt lib s.path = none
  last : steps.getLast?.map (·.path) = some p
  nodup : (steps.map (·.path)).Nodup
  pairs : steps.IsChain fun a b => index.next lib b.path = some a.path ∧ b.path ∈ index.children lib a.path
  prefixes : ∀ above s below, steps = above ++ s :: below → index.lineage lib s.path = .ok group root (above ++ [s])

theorem map_step_path (pages : List Text) : (pages.map (index.step lib)).map (·.path) = pages := by
  rw [List.map_map]
  exact List.map_id pages

/-- **A lineage that is ok is the path.** -/
theorem FirstRoot.faithful (hp : (lookup index.fields p).isSome) (h : FirstRoot lib index p k r node)
    (hk : k < maxTreeDepth) :
    FaithfulPath lib index p node.kind node ((trail (index.next lib) k p).map (index.step lib)) where
  head := by
    refine ⟨index.step lib r, ?_, h.root, rfl⟩
    rw [List.head?_map, head?_trail h.walk]
    rfl
  first := by
    intro s hs
    rw [← List.map_tail] at hs
    obtain ⟨q, hq, rfl⟩ := List.mem_map.1 hs
    obtain ⟨i, hi, hwalk⟩ := mem_trail (List.mem_of_mem_tail hq)
    refine h.first i (lt_of_le_of_ne hi ?_) q hwalk
    rintro rfl
    rw [h.walk] at hwalk
    obtain rfl := Option.some.inj hwalk
    have hnodup := h.nodup
    have hhead := head?_trail h.walk
    cases htrail : trail (index.next lib) i p with
    | nil =>
      rw [htrail] at hq
      cases hq
    | cons a l =>
      rw [htrail] at hnodup hhead hq
      obtain rfl := Option.some.inj hhead
      exact (List.nodup_cons.1 hnodup).1 hq
  last := by
    rw [List.getLast?_map, getLast?_trail]
    rfl
  nodup := by
    rw [map_step_path]
    exact h.nodup
  pairs := by
    rw [List.isChain_map]
    exact (isChain_trail h.walk).imp fun a b hab => ⟨hab, mem_children hab⟩
  prefixes := by
    intro above s below hsteps
    have hlength := congrArg List.length hsteps
    rw [List.length_map, length_trail h.walk, List.length_append, List.length_cons] at hlength
    obtain ⟨q, hq, hr⟩ := walk_of_le h.walk (i := below.length) (by omega)
    have hsplit := trail_add hq (k - below.length)
    rw [Nat.add_sub_cancel' (by omega)] at hsplit
    rw [hsplit, List.map_append, show above ++ s :: below = (above ++ [s]) ++ below by simp] at hsteps
    have hparts := List.append_inj hsteps (by rw [List.length_map, length_trail hr, List.length_append, List.length_singleton]; omega)
    have hlast := congrArg List.getLast? hparts.1
    rw [List.getLast?_map, getLast?_trail, List.getLast?_concat] at hlast
    have hpath : s.path = q := congrArg LineageStep.path (Option.some.inj hlast.symm)
    have hanswer := lineage_of_firstRoot (walk_isField hp hq) (h.of_walk (by omega) hq)
    rw [if_neg (by omega)] at hanswer
    rw [hpath, ← hparts.1]
    exact hanswer

/-- **`lineage` is a faithful path**: it comes to an end, is ok exactly when the
walk up reaches a root within the depth of a tree, is then the path from that
root, and tells of a cycle exactly when the walk is back before any root. -/
theorem lineage_faithful (lib : Library) (index : TreeIndex) (p : Text) :
    ((lookup index.fields p).isSome → ∀ fuel, index.fields.length < fuel → index.climb lib p fuel p [] = index.lineage lib p) ∧
      ((∃ group root steps, index.lineage lib p = .ok group root steps) ↔ (lookup index.fields p).isSome ∧
        ∃ k < maxTreeDepth, ∃ r, walk (index.next lib) k p = some r ∧ (index.rootAt lib r).isSome) ∧
      (∀ group root steps, index.lineage lib p = .ok group root steps → FaithfulPath lib index p group root steps) ∧
      ((∃ place steps, index.lineage lib p = .fail .cycle place steps) ↔ (lookup index.fields p).isSome ∧
        ∃ i j, i < j ∧ (walk (index.next lib) j p).isSome ∧ walk (index.next lib) i p = walk (index.next lib) j p ∧
          ∀ l ≤ j, ∀ q, walk (index.next lib) l p = some q → index.rootAt lib q = none) := by
  by_cases hp : (lookup index.fields p).isSome
  · have hlineage : index.lineage lib p = index.climb lib p (index.fields.length + 1) p [] := by
      unfold TreeIndex.lineage
      exact if_neg (by rwa [Option.isNone_iff_eq_none, ← Option.not_isSome_iff_eq_none, not_not])
    have hfuel : ∀ fuel, index.fields.length < fuel → index.climb lib p fuel p [] = index.lineage lib p := by
      intro fuel hlt
      obtain ⟨extra, rfl⟩ := Nat.exists_eq_add_of_lt hlt
      rw [hlineage]
      induction extra with
      | zero => rfl
      | succ extra ih =>
        rw [← ih (by omega)]
        exact @climb_fuel _ _ _ _ [] hp (fun _ hu => absurd hu List.not_mem_nil) List.nodup_nil _ (by rw [List.length_nil]; omega)
    refine ⟨fun _ => hfuel, ?_⟩
    rcases walk_cases lib index p with ⟨k, r, node, hroot⟩ | ⟨k, r, hwalk, hend, hnone⟩ | hall
    · have hanswer := lineage_of_firstRoot hp hroot
      have hreach : ∀ {k' r'}, walk (index.next lib) k' p = some r' → (index.rootAt lib r').isSome → k ≤ k' := by
        intro k' r' hwalk' hroot'
        by_contra hlt
        rw [hroot.first k' (by omega) r' hwalk'] at hroot'
        cases hroot'
      have hcycle : ¬∃ i j, i < j ∧ (walk (index.next lib) j p).isSome ∧ walk (index.next lib) i p = walk (index.next lib) j p ∧
          ∀ l ≤ j, ∀ q, walk (index.next lib) l p = some q → index.rootAt lib q = none := by
        rintro ⟨i, j, hij, hsome, hsame, hnone⟩
        by_cases hkj : k ≤ j
        · have hno := hnone k hkj r hroot.walk
          rw [hroot.root] at hno
          cases hno
        · exact walk_injective (P := fun q => index.rootAt lib q ≠ none) hroot.walk (by rw [hroot.root]; exact nofun)
            (fun i hi q hq => by rw [not_not]; exact hroot.first i hi q hq) hij (by omega) hsame
      by_cases hdeep : maxTreeDepth < k + 1
      · rw [if_pos hdeep] at hanswer
        rw [hanswer]
        refine ⟨⟨?_, ?_⟩, ?_, ⟨?_, ?_⟩⟩
        · rintro ⟨group, root, steps, h⟩
          cases h
        · rintro ⟨-, k', hk', r', hwalk', hroot'⟩
          have hle := hreach hwalk' hroot'
          omega
        · intro group root steps h
          cases h
        · rintro ⟨place, steps, h⟩
          cases h
        · exact fun h => absurd h.2 hcycle
      · rw [if_neg hdeep] at hanswer
        rw [hanswer]
        refine ⟨⟨fun _ => ⟨hp, k, by omega, r, hroot.walk, by rw [hroot.root]; rfl⟩, fun _ => ⟨_, _, _, rfl⟩⟩, ?_, ⟨?_, ?_⟩⟩
        · intro group root steps h
          cases h
          exact hroot.faithful hp (by omega)
        · rintro ⟨place, steps, h⟩
          cases h
        · exact fun h => absurd h.2 hcycle
    · have hnorevisit : ∀ i j, i < j → j ≤ k → walk (index.next lib) i p ≠ walk (index.next lib) j p := by
        intro i j hij hj hsame
        obtain ⟨q, hq, -⟩ := walk_of_le hwalk hj
        have hsome := isSome_of_revisit hsame hij (by rw [hq]; rfl) (k + 1)
        rw [walk_succ, hwalk] at hsome
        rw [show (some r).bind (index.next lib) = index.next lib r from rfl, hend] at hsome
        cases hsome
      have hnodup := nodup_trail hnorevisit
      obtain ⟨reason, hreason, place, steps, hclimb⟩ := @climb_walk_stuck _ _ p _ p _ [] hwalk hend
        (fun i _ q hq => hnone i q hq) hnodup (fun _ _ => List.not_mem_nil)
        _ (Nat.lt_succ_of_lt (length_trail_le hp hwalk hnodup))
      rw [← hlineage] at hclimb
      rw [hclimb]
      refine ⟨⟨?_, ?_⟩, ?_, ⟨?_, ?_⟩⟩
      · rintro ⟨group, root, steps, h⟩
        cases h
      · rintro ⟨-, k', -, r', hwalk', hroot'⟩
        rw [hnone k' r' hwalk'] at hroot'
        cases hroot'
      · intro group root steps h
        cases h
      · rintro ⟨place, steps, h⟩
        cases h
        rcases hreason with h | h | h <;> cases h
      · rintro ⟨-, i, j, hij, hsome, hsame, -⟩
        have hgoes := isSome_of_revisit hsame hij hsome (k + 1)
        rw [walk_succ, hwalk] at hgoes
        rw [show (some r).bind (index.next lib) = index.next lib r from rfl, hend] at hgoes
        cases hgoes
    · obtain ⟨place, steps, hclimb⟩ := @climb_cycle _ _ p p [] hall (index.fields.length + 1)
      rw [← hlineage] at hclimb
      rw [hclimb]
      refine ⟨⟨?_, ?_⟩, ?_, ⟨fun _ => ⟨hp, ?_⟩, fun _ => ⟨_, _, rfl⟩⟩⟩
      · rintro ⟨group, root, steps, h⟩
        cases h
      · rintro ⟨-, k', -, r', hwalk', hroot'⟩
        obtain ⟨q, hq, hnone⟩ := hall k'
        rw [hwalk'] at hq
        obtain rfl := Option.some.inj hq
        rw [hnone] at hroot'
        cases hroot'
      · intro group root steps h
        cases h
      · obtain ⟨i, j, hij, hsame⟩ := @exists_revisit _ (index.next lib) p (index.fields.map (·.1)) fun n => by
          obtain ⟨q, hq, -⟩ := hall n
          exact ⟨q, mem_keys (walk_isField hp hq), hq⟩
        obtain ⟨q, hq, -⟩ := hall j
        refine ⟨i, j, hij, by rw [hq]; rfl, hsame, fun l _ u hu => ?_⟩
        obtain ⟨v, hv, hnone⟩ := hall l
        rw [hu] at hv
        obtain rfl := Option.some.inj hv
        exact hnone
  · have hanswer : index.lineage lib p = .fail .notATreePage p [] := by
      unfold TreeIndex.lineage
      exact if_pos (by rwa [Option.isNone_iff_eq_none, ← Option.not_isSome_iff_eq_none])
    rw [hanswer]
    refine ⟨fun h => absurd h hp, ⟨?_, fun h => absurd h.1 hp⟩, ?_, ⟨?_, fun h => absurd h.1 hp⟩⟩
    · rintro ⟨group, root, steps, h⟩
      cases h
    · intro group root steps h
      cases h
    · rintro ⟨place, steps, h⟩
      cases h

end Zenod.Vault
