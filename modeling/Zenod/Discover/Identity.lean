/-
Which root of the tree keeps which id (`engine/treeIdentity.ts`): roots that
were derived anew are matched with the previous ones by the overlap of their
members, best first, and those left over get a new id.

`matchRootIds_stable`: the ids are distinct, claims are kept, nothing overlaps
more with what it did not get, and unchanged roots keep their ids.
-/
import Mathlib.Data.Finset.Sort
import Mathlib.Data.List.Lex
import Mathlib.Data.List.Sort
import Mathlib.Data.List.Perm.Subperm
import Mathlib.Data.Prod.Lex
import Mathlib.Data.Rat.Defs
import Mathlib.Algebra.Order.Field.Basic
import Mathlib.Algebra.Order.Field.Rat
import Mathlib.Tactic.NormNum
import Zenod.Lib.Matching
import Zenod.Lib.Text

namespace Zenod.Discover

open Matching

/-! ## The code -/

/-- Division of one size of a set by another: exact, or rounded as numbers of the language are. -/
structure Division (S : Type) [LinearOrder S] [Zero S] [One S] where
  quotient : Nat → Nat → S
  self : ∀ n, 0 < n → quotient n n = 1
  lt_one : ∀ m n, m < n → quotient m n < 1

variable {S : Type} [LinearOrder S] [Zero S] [One S] (div : Division S)

/-- |a ∩ b| / |a ∪ b|; 0 for two empty sets. -/
def jaccard (a b : Finset Text) : S :=
  let shared := (a ∩ b).card
  let union := a.card + b.card - shared
  if union ≠ 0 then div.quotient shared union else 0

/-- Deterministic id for a root no old root matched. -/
def newRootId (sha1 : Text → Text) (members : Finset Text) : Text :=
  ['n', '-'] ++ (sha1 (Text.join (members.sort (· ≤ ·)))).take 8

/-- The previous roots, a `Map`. -/
structure Roots where
  entries : List (Text × Finset Text)
  nodup : (entries.map Prod.fst).Nodup

def Roots.keys (previous : Roots) : List Text := previous.entries.map Prod.fst

/-- The claimed ids by their index, a `Map`. -/
structure Claims where
  entries : List (Nat × Text)
  nodup : (entries.map Prod.fst).Nodup

def Claims.get (claimed : Claims) (i : Nat) : Option Text := claimed.entries.lookup i

def Claims.values (claimed : Claims) : List Text := claimed.entries.map Prod.snd

def start (current : List (Finset Text)) (claimed : Claims) : Assignment Text where
  slots := (List.range current.length).map claimed.get
  taken := claimed.values

def pairs (previous : Roots) (current : List (Finset Text)) (a : Assignment Text) : List (Pair S Text) :=
  previous.entries.flatMap fun (id, members) =>
    if id ∈ a.taken then []
    else current.zipIdx.filterMap fun (set, i) =>
      if a.slots[i]? = some none then some ⟨jaccard div members set, id, i⟩ else none

/-- `b.score - a.score || byCodePoint(a.id, b.id) || a.i - b.i`. -/
def rank (p : Pair S Text) : Lex (Sᵒᵈ × Lex (Text × Nat)) :=
  toLex (OrderDual.toDual p.score, toLex (p.id, p.slot))

def sortPairs (l : List (Pair S Text)) : List (Pair S Text) := l.insertionSort fun p q => rank p ≤ rank q

/-- `for (let n = 2; used.has(candidate); n++)`. -/
def firstFree (used : List Text) (base : Text) : Nat → Nat → Text → Text
  | 0, _, candidate => candidate
  | fuel + 1, n, candidate =>
    if candidate ∈ used then firstFree used base fuel (n + 1) (base ++ '-' :: Nat.toDigits 10 n) else candidate

/-- Of `used.length + 1` candidates one is free. -/
def freshId (used : List Text) (base : Text) : Text := firstFree used base used.length 2 base

def nameRest (sha1 : Text → Text) : List (Finset Text × Option Text) → List Text → List Text
  | [], _ => []
  | (_, some id) :: rest, used => id :: nameRest sha1 rest used
  | (members, none) :: rest, used =>
    let candidate := freshId used (newRootId sha1 members)
    candidate :: nameRest sha1 rest (used ++ [candidate])

def matchRootIds (sha1 : Text → Text) (previous : Roots) (current : List (Finset Text)) (threshold : S)
    (claimed : Claims) : List Text :=
  let a := start current claimed
  let a := matchBest threshold (sortPairs (pairs div previous current a)) a
  nameRest sha1 (current.zip a.slots) (previous.keys ++ a.taken)

/-! ## New ids -/

variable {used : List Text} {base : Text}

theorem suffix_injective {m n : Nat}
    (h : base ++ '-' :: Nat.toDigits 10 m = base ++ '-' :: Nat.toDigits 10 n) : m = n := by
  have htail := List.append_cancel_left h
  simp only [List.cons.injEq, true_and] at htail
  have hread := congrArg (fun t : Text => Nat.ofDigitChars 10 t 0) htail
  simpa only [Nat.ofDigitChars_ten_toDigits] using hread

/-- Every candidate was tried if what comes out is in use. -/
theorem firstFree_tried {fuel n : Nat} {candidate : Text} (h : firstFree used base fuel n candidate ∈ used) :
    candidate ∈ used ∧ ∀ k, k < fuel → base ++ '-' :: Nat.toDigits 10 (n + k) ∈ used := by
  induction fuel generalizing n candidate with
  | zero => exact ⟨h, fun k hk => absurd hk (Nat.not_lt_zero k)⟩
  | succ fuel ih =>
    unfold firstFree at h
    split at h
    · rename_i hused
      obtain ⟨hfirst, hrest⟩ := ih h
      refine ⟨hused, fun k hk => ?_⟩
      cases k with
      | zero => exact hfirst
      | succ k =>
        have := hrest k (by omega)
        rwa [show n + 1 + k = n + (k + 1) by omega] at this
    · rename_i hused
      exact absurd h hused

theorem freshId_not_mem : freshId used base ∉ used := by
  intro h
  obtain ⟨hbase, hsuffixed⟩ := firstFree_tried h
  have hnodup : (base :: (List.range used.length).map fun k => base ++ '-' :: Nat.toDigits 10 (2 + k)).Nodup := by
    refine List.nodup_cons.mpr ⟨?_, ?_⟩
    · intro hmem
      obtain ⟨k, _, hk⟩ := List.mem_map.mp hmem
      have := congrArg List.length hk
      simp at this
    · refine List.Nodup.map_on (fun k _ l _ hkl => ?_) List.nodup_range
      have := suffix_injective hkl
      omega
  have hsub : (base :: (List.range used.length).map fun k => base ++ '-' :: Nat.toDigits 10 (2 + k)) ⊆ used := by
    intro candidate hcandidate
    rcases List.mem_cons.mp hcandidate with rfl | hcandidate
    · exact hbase
    · obtain ⟨k, hk, rfl⟩ := List.mem_map.mp hcandidate
      exact hsuffixed k (List.mem_range.mp hk)
  have := (List.subperm_of_subset hnodup hsub).length_le
  simp at this

variable {sha1 : Text → Text}

theorem nameRest_length (l : List (Finset Text × Option Text)) : (nameRest sha1 l used).length = l.length := by
  induction l generalizing used with
  | nil => rfl
  | cons entry l ih =>
    obtain ⟨members, _ | id⟩ := entry
    · simp [nameRest, ih]
    · simp [nameRest, ih]

/-- A slot with an id keeps it. -/
theorem nameRest_some (sha1 : Text → Text) (used : List Text) {l : List (Finset Text × Option Text)} {i : Nat}
    {members : Finset Text} {id : Text} (h : l[i]? = some (members, some id)) :
    (nameRest sha1 l used)[i]? = some id := by
  induction l generalizing used i with
  | nil => simp at h
  | cons entry l ih =>
    cases i with
    | zero =>
      obtain rfl : entry = (members, some id) := by simpa using h
      rfl
    | succ i =>
      have h : l[i]? = some (members, some id) := by simpa using h
      obtain ⟨other, _ | id'⟩ := entry
      · simpa [nameRest] using ih _ h
      · simpa [nameRest] using ih _ h

/-- A slot without an id gets a new one. -/
theorem nameRest_none (sha1 : Text → Text) (used : List Text) {l : List (Finset Text × Option Text)} {i : Nat}
    {members : Finset Text} (h : l[i]? = some (members, none)) :
    ∃ id, (nameRest sha1 l used)[i]? = some id ∧ id ∉ used := by
  induction l generalizing used i with
  | nil => simp at h
  | cons entry l ih =>
    cases i with
    | zero =>
      obtain rfl : entry = (members, none) := by simpa using h
      exact ⟨_, rfl, freshId_not_mem⟩
    | succ i =>
      have h : l[i]? = some (members, none) := by simpa using h
      obtain ⟨other, _ | id'⟩ := entry
      · obtain ⟨id, hid, hunused⟩ := ih (used ++ [freshId used (newRootId sha1 other)]) h
        exact ⟨id, by simpa [nameRest] using hid, fun hmem => hunused (List.mem_append_left _ hmem)⟩
      · obtain ⟨id, hid, hunused⟩ := ih used h
        exact ⟨id, by simpa [nameRest] using hid, hunused⟩

theorem nameRest_mem {l : List (Finset Text × Option Text)} {id : Text} (h : id ∈ nameRest sha1 l used) :
    (∃ members, (members, some id) ∈ l) ∨ id ∉ used := by
  obtain ⟨i, hi⟩ := List.mem_iff_getElem?.mp h
  have hlt : i < l.length := by
    rw [← @nameRest_length used sha1]
    exact (List.getElem?_eq_some_iff.mp hi).1
  cases hentry : l[i] with
  | mk members slot =>
    have hget : l[i]? = some (members, slot) := by rw [List.getElem?_eq_getElem hlt, hentry]
    cases slot with
    | none =>
      obtain ⟨id', hid', hunused⟩ := nameRest_none sha1 used hget
      rw [hi, Option.some.injEq] at hid'
      exact .inr (hid' ▸ hunused)
    | some id' =>
      have := nameRest_some sha1 used hget
      rw [hi, Option.some.injEq] at this
      exact .inl ⟨members, this ▸ List.mem_of_getElem? hget⟩

theorem nameRest_nodup {l : List (Finset Text × Option Text)} (hnodup : (l.filterMap Prod.snd).Nodup)
    (hused : ∀ id ∈ l.filterMap Prod.snd, id ∈ used) : (nameRest sha1 l used).Nodup := by
  induction l generalizing used with
  | nil => exact List.nodup_nil
  | cons entry l ih =>
    obtain ⟨members, _ | id⟩ := entry
    · simp only [List.filterMap_cons] at hnodup hused
      refine List.nodup_cons.mpr ⟨fun hmem => ?_, ih hnodup fun id hid => List.mem_append_left _ (hused id hid)⟩
      rcases nameRest_mem hmem with ⟨other, hother⟩ | hunused
      · exact freshId_not_mem (hused _ (List.mem_filterMap.mpr ⟨_, hother, rfl⟩))
      · exact hunused (List.mem_append_right _ (List.mem_singleton_self _))
    · simp only [List.filterMap_cons, List.nodup_cons] at hnodup
      simp only [List.filterMap_cons, List.mem_cons] at hused
      refine List.nodup_cons.mpr ⟨fun hmem => ?_, ih hnodup.2 fun id hid => hused id (.inr hid)⟩
      rcases nameRest_mem hmem with ⟨other, hother⟩ | hunused
      · exact hnodup.1 (List.mem_filterMap.mpr ⟨_, hother, rfl⟩)
      · exact hunused (hused id (.inl rfl))

/-! ## The pairs -/

variable {div} {previous : Roots} {current : List (Finset Text)} {claimed : Claims} {threshold : S}

theorem Claims.get_eq_some {i : Nat} {id : Text} : claimed.get i = some id ↔ (i, id) ∈ claimed.entries := by
  unfold Claims.get
  constructor
  · intro h
    obtain ⟨l, r, heq, _⟩ := List.lookup_eq_some_iff.mp h
    rw [heq]
    exact List.mem_append_right _ List.mem_cons_self
  · intro h
    obtain ⟨l, r, heq⟩ := List.append_of_mem h
    refine List.lookup_eq_some_iff.mpr ⟨l, r, heq, fun p hp => ?_⟩
    have hnodup := claimed.nodup
    rw [heq, List.map_append, List.map_cons] at hnodup
    have hne := (List.nodup_append.mp hnodup).2.2 p.1 (List.mem_map_of_mem hp) i List.mem_cons_self
    simpa using hne.symm

theorem start_slots {i : Nat} {slot : Option Text} :
    (start current claimed).slots[i]? = some slot ↔ i < current.length ∧ claimed.get i = slot := by
  simp only [start, List.getElem?_map]
  by_cases hlt : i < current.length
  · simp [hlt]
  · simp [hlt]

theorem start_oneToOne (hclaimed : claimed.values.Nodup) : OneToOne (start current claimed) where
  once i j id hi hj := by
    have hi := Claims.get_eq_some.mp (start_slots.mp hi).2
    have hj := Claims.get_eq_some.mp (start_slots.mp hj).2
    have := List.inj_on_of_nodup_map hclaimed hi hj rfl
    exact congrArg Prod.fst this
  taken i id hi := List.mem_map_of_mem (Claims.get_eq_some.mp (start_slots.mp hi).2)

theorem mem_pairs {a : Assignment Text} {p : Pair S Text} :
    p ∈ pairs div previous current a ↔ ∃ members set, (p.id, members) ∈ previous.entries ∧
      current[p.slot]? = some set ∧ a.Free p ∧ p.score = jaccard div members set := by
  simp only [pairs, List.mem_flatMap, Prod.exists]
  constructor
  · rintro ⟨id, members, hentry, hp⟩
    split at hp
    · exact absurd hp List.not_mem_nil
    · rename_i htaken
      obtain ⟨⟨set, i⟩, hset, hp⟩ := List.mem_filterMap.mp hp
      split at hp
      · rename_i hslot
        simp only [Option.some.injEq] at hp
        subst hp
        exact ⟨members, set, hentry, by simpa using List.mem_zipIdx_iff_getElem?.mp hset, ⟨hslot, htaken⟩, rfl⟩
      · cases hp
  · rintro ⟨members, set, hentry, hset, hfree, hscore⟩
    refine ⟨p.id, members, hentry, ?_⟩
    rw [if_neg hfree.2]
    refine List.mem_filterMap.mpr ⟨(set, p.slot), List.mem_zipIdx_iff_getElem?.mpr hset, ?_⟩
    simp only [if_pos hfree.1, ← hscore]

omit [Zero S] [One S] in
theorem sortPairs_sorted (l : List (Pair S Text)) : (sortPairs l).Pairwise fun p q => q.score ≤ p.score := by
  have : Std.Total fun p q : Pair S Text => rank p ≤ rank q := ⟨fun p q => le_total _ _⟩
  have : IsTrans (Pair S Text) fun p q => rank p ≤ rank q := ⟨fun p q r => le_trans⟩
  refine (List.pairwise_insertionSort (fun p q : Pair S Text => rank p ≤ rank q) l).imp fun {p q} h => ?_
  rcases Prod.Lex.le_iff.mp h with hlt | ⟨heq, _⟩
  · exact le_of_lt hlt
  · exact le_of_eq heq.symm

omit [Zero S] [One S] in
theorem mem_sortPairs {l : List (Pair S Text)} {p : Pair S Text} : p ∈ sortPairs l ↔ p ∈ l :=
  List.mem_insertionSort _

/-! ## Overlaps -/

theorem jaccard_self (div : Division S) {a : Finset Text} (h : a.Nonempty) : jaccard div a a = 1 := by
  have hpos := h.card_pos
  simp only [jaccard, Finset.inter_self, Nat.add_sub_cancel]
  rw [if_pos (by omega)]
  exact div.self _ hpos

/-- Only equal sets overlap wholly. -/
theorem jaccard_lt_one (div : Division S) {a b : Finset Text} (hab : (a ∪ b).Nonempty) (hne : a ≠ b) :
    jaccard div a b < 1 := by
  have hpos := hab.card_pos
  have hunion := Finset.card_union_add_card_inter a b
  have hshared : (a ∩ b).card < (a ∪ b).card := by
    refine Finset.card_lt_card (Finset.ssubset_iff_subset_ne.mpr ⟨Finset.inter_subset_union, fun heq => hne ?_⟩)
    refine Finset.Subset.antisymm ?_ ?_
    · exact (Finset.subset_union_left.trans heq.ge).trans Finset.inter_subset_right
    · exact (Finset.subset_union_right.trans heq.ge).trans Finset.inter_subset_left
  simp only [jaccard]
  rw [if_pos (by omega)]
  exact div.lt_one _ _ (by omega)

/-! ## The ids -/

/-- The slots after the greedy pass. -/
def matched (div : Division S) (previous : Roots) (current : List (Finset Text)) (threshold : S) (claimed : Claims) :
    Assignment Text :=
  matchBest threshold (sortPairs (pairs div previous current (start current claimed))) (start current claimed)

theorem matchRootIds_eq : matchRootIds div sha1 previous current threshold claimed =
    nameRest sha1 (current.zip (matched div previous current threshold claimed).slots)
      (previous.keys ++ (matched div previous current threshold claimed).taken) := rfl

theorem matched_length :
    (matched div previous current threshold claimed).slots.length = current.length := by
  simp [matched, matchBest_length, start]

theorem matched_oneToOne (hclaimed : claimed.values.Nodup) :
    OneToOne (matched div previous current threshold claimed) :=
  matchBest_oneToOne (start_oneToOne hclaimed) _

/-- An id in a slot is claimed for it, or a previous one that overlaps enough. -/
theorem matched_has {i : Nat} {id : Text} (h : (matched div previous current threshold claimed).has i id) :
    claimed.get i = some id ∨ claimed.get i = none ∧ id ∉ claimed.values ∧
      ∃ members set, (id, members) ∈ previous.entries ∧ current[i]? = some set ∧
        threshold ≤ jaccard div members set := by
  rcases matchBest_source _ h with h | ⟨p, hp, rfl, rfl, hscore⟩
  · exact .inl (start_slots.mp h).2
  · obtain ⟨members, set, hentry, hset, hfree, heq⟩ := mem_pairs.mp (mem_sortPairs.mp hp)
    rw [heq] at hscore
    exact .inr ⟨(start_slots.mp hfree.1).2, hfree.2, members, set, hentry, hset, hscore⟩

/-- What a slot ends up with. -/
theorem slot_cases {i : Nat} {id : Text}
    (h : (matchRootIds div sha1 previous current threshold claimed)[i]? = some id) :
    (matched div previous current threshold claimed).has i id ∨
    (matched div previous current threshold claimed).slots[i]? = some none ∧ id ∉ previous.keys ∧
      id ∉ (matched div previous current threshold claimed).taken := by
  have hlt : i < current.length := by
    have := (List.getElem?_eq_some_iff.mp h).1
    rw [matchRootIds, nameRest_length, List.length_zip] at this
    exact lt_of_lt_of_le this (min_le_left _ _)
  have hlt' : i < (matched div previous current threshold claimed).slots.length := by rwa [matched_length]
  have hget := List.getElem?_eq_getElem hlt'
  cases hslot : (matched div previous current threshold claimed).slots[i] with
  | none =>
    rw [hslot] at hget
    obtain ⟨id', hid', hunused⟩ := nameRest_none sha1
      (previous.keys ++ (matched div previous current threshold claimed).taken)
      (List.getElem?_zip_eq_some.mpr ⟨List.getElem?_eq_getElem hlt, hget⟩)
    have h' := hid'.symm.trans h
    simp only [Option.some.injEq] at h'
    subst h'
    simp only [List.mem_append, not_or] at hunused
    exact .inr ⟨hget, hunused⟩
  | some id' =>
    rw [hslot] at hget
    have hid' := nameRest_some sha1
      (previous.keys ++ (matched div previous current threshold claimed).taken)
      (List.getElem?_zip_eq_some.mpr ⟨List.getElem?_eq_getElem hlt, hget⟩)
    have h' := hid'.symm.trans h
    simp only [Option.some.injEq] at h'
    subst h'
    exact .inl hget

theorem ids_of_has (sha1 : Text → Text) {i : Nat} {id : Text}
    (h : (matched div previous current threshold claimed).has i id) :
    (matchRootIds div sha1 previous current threshold claimed)[i]? = some id := by
  have hlt : i < current.length := by
    have := (List.getElem?_eq_some_iff.mp h).1
    rwa [matched_length] at this
  exact nameRest_some sha1 _ (List.getElem?_zip_eq_some.mpr ⟨List.getElem?_eq_getElem hlt, h⟩)

theorem ids_length : (matchRootIds div sha1 previous current threshold claimed).length = current.length := by
  have h : (current.zip (matched div previous current threshold claimed).slots).length = current.length := by
    rw [List.length_zip, matched_length, Nat.min_self]
  exact (nameRest_length _).trans h

theorem ids_nodup (hclaimed : claimed.values.Nodup) :
    (matchRootIds div sha1 previous current threshold claimed).Nodup := by
  have hone : OneToOne (matched div previous current threshold claimed) := matched_oneToOne hclaimed
  have hsnd : (current.zip (matched div previous current threshold claimed).slots).filterMap Prod.snd =
      (matched div previous current threshold claimed).slots.filterMap id := by
    conv_rhs => rw [← @List.map_snd_zip _ _ current _ (le_of_eq matched_length), List.filterMap_map]
    rfl
  rw [matchRootIds_eq]
  refine nameRest_nodup (hsnd ▸ hone.nodup) fun id hid => List.mem_append_right _ ?_
  rw [hsnd] at hid
  obtain ⟨slot, hslot, rfl⟩ := List.mem_filterMap.mp hid
  obtain ⟨i, hi⟩ := List.mem_iff_getElem?.mp hslot
  exact hone.taken i id hi

/-- No unclaimed id and unclaimed set would both rather have each other. -/
theorem ids_stable (sha1 : Text → Text) {i : Nat} {id : Text} {members set : Finset Text}
    (hentry : (id, members) ∈ previous.entries)
    (hid : id ∉ claimed.values) (hset : current[i]? = some set) (hi : claimed.get i = none)
    (hscore : threshold ≤ jaccard div members set) :
    (∃ id' members', (matchRootIds div sha1 previous current threshold claimed)[i]? = some id' ∧
      (id', members') ∈ previous.entries ∧ jaccard div members set ≤ jaccard div members' set) ∨
    ∃ (j : Nat) (set' : Finset Text), (matchRootIds div sha1 previous current threshold claimed)[j]? = some id ∧
      current[j]? = some set' ∧ jaccard div members set ≤ jaccard div members set' := by
  have hlt := (List.getElem?_eq_some_iff.mp hset).1
  have hfree : (start current claimed).Free (⟨jaccard div members set, id, i⟩ : Pair S Text) :=
    ⟨start_slots.mpr ⟨hlt, hi⟩, hid⟩
  have hp := mem_sortPairs.mpr (mem_pairs.mpr ⟨members, set, hentry, hset, hfree, rfl⟩)
  obtain ⟨q, hq, hhas, hle, hsame⟩ := matchBest_stable (sortPairs_sorted _) hp hscore hfree
  obtain ⟨members', set', hentry', hset', _, hqscore⟩ := mem_pairs.mp (mem_sortPairs.mp hq)
  rw [hqscore] at hle
  rcases hsame with hsame | hsame
  · have hids := ids_of_has sha1 hhas
    rw [hsame] at hids
    rw [hsame, hset, Option.some.injEq] at hset'
    subst hset'
    exact .inl ⟨q.id, members', hids, hentry', hle⟩
  · have : members' = members := by
      have := List.inj_on_of_nodup_map previous.nodup hentry' hentry hsame
      exact congrArg Prod.snd this
    subst this
    have hids := ids_of_has sha1 hhas
    rw [hsame] at hids
    exact .inr ⟨q.slot, set', hids, hset', hle⟩

/-- An unclaimed set gets a previous id that overlaps enough, or a new one. -/
theorem ids_unclaimed {i : Nat} {id : Text} (hi : claimed.get i = none)
    (h : (matchRootIds div sha1 previous current threshold claimed)[i]? = some id) :
    id ∉ claimed.values ∧ (id ∉ previous.keys ∨ ∃ members set, (id, members) ∈ previous.entries ∧
      current[i]? = some set ∧ threshold ≤ jaccard div members set) := by
  rcases slot_cases h with h | ⟨_, hnew, huntaken⟩
  · rcases matched_has h with hclaim | ⟨_, hid, members, set, hmatch⟩
    · rw [hi] at hclaim
      cases hclaim
    · exact ⟨hid, .inr ⟨members, set, hmatch⟩⟩
  · exact ⟨fun hid => huntaken (matchBest_taken_mono _ hid), .inl hnew⟩

/-- A set that was there before keeps its id, if nothing else is claimed for it. -/
theorem ids_kept (hthreshold : threshold ≤ 1)
    (hclaims : ∀ i id, claimed.get i = some id → ∃ set, current[i]? = some set ∧ (id, set) ∈ previous.entries)
    (hdistinct : (previous.entries.map Prod.snd).Nodup) (hcurrent : current.Nodup)
    {i : Nat} {id : Text} {set : Finset Text} (hnonempty : set.Nonempty) (hset : current[i]? = some set)
    (hentry : (id, set) ∈ previous.entries) :
    (matchRootIds div sha1 previous current threshold claimed)[i]? = some id := by
  have hsame : ∀ {id'}, (id', set) ∈ previous.entries → id' = id := fun hentry' =>
    congrArg Prod.fst (List.inj_on_of_nodup_map hdistinct hentry' hentry rfl)
  have hplace : ∀ {j : Nat}, current[j]? = some set → j = i := fun hj =>
    (List.getElem?_inj (List.getElem?_eq_some_iff.mp hj).1 hcurrent).mp (hj.trans hset.symm)
  cases hi : claimed.get i with
  | some id' =>
    obtain ⟨set', hset', hentry'⟩ := hclaims i id' hi
    rw [hset, Option.some.injEq] at hset'
    subst hset'
    obtain rfl := hsame hentry'
    have hlt := (List.getElem?_eq_some_iff.mp hset).1
    exact ids_of_has sha1 (matchBest_keeps _ (start_slots.mpr ⟨hlt, hi⟩))
  | none =>
    have hid : id ∉ claimed.values := by
      intro hmem
      obtain ⟨⟨j, id'⟩, hj, rfl⟩ := List.mem_map.mp hmem
      have hget := Claims.get_eq_some.mpr hj
      obtain ⟨set', hset', hentry'⟩ := hclaims j id' hget
      have heq : set' = set := congrArg Prod.snd (List.inj_on_of_nodup_map previous.nodup hentry' hentry rfl)
      subst heq
      obtain rfl := hplace hset'
      rw [hi] at hget
      cases hget
    have hscore : threshold ≤ jaccard div set set := by rwa [jaccard_self div hnonempty]
    rcases ids_stable sha1 hentry hid hset hi hscore with
      ⟨id', members', hids, hentry', hle⟩ | ⟨j, set', hids, hset', hle⟩
    · rw [jaccard_self div hnonempty] at hle
      have heq : members' = set := by
        by_contra hne
        exact absurd (jaccard_lt_one div (hnonempty.mono Finset.subset_union_right) hne) (not_lt.mpr hle)
      subst heq
      rw [hids, hsame hentry']
    · rw [jaccard_self div hnonempty] at hle
      have heq : set = set' := by
        by_contra hne
        exact absurd (jaccard_lt_one div (hnonempty.mono Finset.subset_union_left) hne) (not_lt.mpr hle)
      subst heq
      rw [← hplace hset']
      exact hids

/-- **Main result.** The ids are distinct, one for each set; claims are kept; an unclaimed set has
a previous id that overlaps enough, or a new one; there is no blocking pair; and unchanged sets
keep their ids, unless a claim says otherwise. -/
theorem matchRootIds_stable (div : Division S) (sha1 : Text → Text) (previous : Roots)
    (current : List (Finset Text)) (threshold : S) (claimed : Claims) (hclaimed : claimed.values.Nodup) :
    (matchRootIds div sha1 previous current threshold claimed).length = current.length ∧
    (matchRootIds div sha1 previous current threshold claimed).Nodup ∧
    (∀ i id, i < current.length → claimed.get i = some id →
      (matchRootIds div sha1 previous current threshold claimed)[i]? = some id) ∧
    (∀ (i : Nat) id, claimed.get i = none →
      (matchRootIds div sha1 previous current threshold claimed)[i]? = some id →
      id ∉ claimed.values ∧ (id ∉ previous.keys ∨ ∃ members set, (id, members) ∈ previous.entries ∧
        current[i]? = some set ∧ threshold ≤ jaccard div members set)) ∧
    (∀ (i : Nat) id members set, (id, members) ∈ previous.entries → id ∉ claimed.values →
      current[i]? = some set → claimed.get i = none → threshold ≤ jaccard div members set →
      (∃ id' members', (matchRootIds div sha1 previous current threshold claimed)[i]? = some id' ∧
        (id', members') ∈ previous.entries ∧ jaccard div members set ≤ jaccard div members' set) ∨
      ∃ (j : Nat) (set' : Finset Text), (matchRootIds div sha1 previous current threshold claimed)[j]? = some id ∧
        current[j]? = some set' ∧ jaccard div members set ≤ jaccard div members set') ∧
    (threshold ≤ 1 →
      (∀ i id, claimed.get i = some id → ∃ set, current[i]? = some set ∧ (id, set) ∈ previous.entries) →
      (previous.entries.map Prod.snd).Nodup → current.Nodup →
      ∀ (i : Nat) id (set : Finset Text), set.Nonempty → current[i]? = some set → (id, set) ∈ previous.entries →
        (matchRootIds div sha1 previous current threshold claimed)[i]? = some id) := by
  refine ⟨ids_length, ids_nodup hclaimed, ?_, ?_, ?_, ?_⟩
  · intro i id hlt hi
    exact ids_of_has sha1 (matchBest_keeps _ (start_slots.mpr ⟨hlt, hi⟩))
  · intro i id hi h
    exact ids_unclaimed hi h
  · intro i id members set hentry hid hset hi hscore
    exact ids_stable sha1 hentry hid hset hi hscore
  · intro hthreshold hclaims hdistinct hcurrent i id set hnonempty hset hentry
    exact ids_kept hthreshold hclaims hdistinct hcurrent hnonempty hset hentry

/-! ## Exact division -/

def exactly : Division ℚ where
  quotient m n := m / n
  self n hn := div_self (by exact_mod_cast hn.ne')
  lt_one m n hmn := by
    rw [div_lt_one (by exact_mod_cast (Nat.zero_le m).trans_lt hmn)]
    exact_mod_cast hmn

def oneRoot : Roots where
  entries := [(['a'], {['x']})]
  nodup := by simp

def noClaims : Claims where
  entries := []
  nodup := by simp

/-- A root that did not change. -/
theorem oneRoot_kept : matchRootIds exactly id oneRoot [{['x']}] (1 / 2) noClaims = [['a']] := by
  have hall := matchRootIds_stable exactly id oneRoot [{['x']}] (1 / 2) noClaims (by simp [noClaims, Claims.values])
  have hkept := hall.2.2.2.2.2 (by norm_num)
    (fun i id h => by simp [noClaims, Claims.get] at h) (by simp [oneRoot]) (by simp) 0 ['a'] {['x']}
    (by simp) rfl (by simp [oneRoot])
  obtain ⟨id, hid⟩ := List.length_eq_one_iff.mp hall.1
  rw [hid] at hkept ⊢
  simpa using hkept

def otherClaim : Claims where
  entries := [(0, ['b'])]
  nodup := by simp

/-- A claim takes its id from a root that did not change. -/
theorem oneRoot_renamed : ¬ ∀ (previous : Roots) (current : List (Finset Text)) (threshold : ℚ) (claimed : Claims),
    0 < threshold → claimed.values.Nodup → (previous.entries.map Prod.snd).Nodup → (∀ set ∈ current, set.Nonempty) →
    current = previous.entries.map Prod.snd →
    matchRootIds exactly id previous current threshold claimed = previous.keys := by
  intro h
  have hkept := h oneRoot [{['x']}] 1 otherClaim (by norm_num) (by simp [otherClaim, Claims.values])
    (by simp [oneRoot]) (by simp) rfl
  have hclaim := (matchRootIds_stable exactly id oneRoot [{['x']}] 1 otherClaim
    (by simp [otherClaim, Claims.values])).2.2.1 0 ['b'] (by simp) rfl
  rw [hkept] at hclaim
  exact absurd hclaim (by decide)

end Zenod.Discover
