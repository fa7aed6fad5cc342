/-
Greedy one-to-one matching: the pairs of an id and a slot are gone through from
the highest score down to a threshold, and a pair is taken if its id and its
slot are both free.

`OneToOne`: no id is in two slots. `matchBest_stable`: a pair at or above the
threshold that was not taken lost its id or its slot to a pair that scores as
high.
-/
import Mathlib.Order.Lattice
import Mathlib.Data.List.Basic

namespace Zenod.Matching

variable {α S : Type} [DecidableEq α]

structure Pair (S α : Type) where
  score : S
  id : α
  slot : Nat
deriving DecidableEq

/-- The slots, and the ids that are not free any more. -/
structure Assignment (α : Type) where
  slots : List (Option α)
  taken : List α

variable {a : Assignment α} {p q : Pair S α}

def Assignment.has (a : Assignment α) (slot : Nat) (id : α) : Prop := a.slots[slot]? = some (some id)

def Assignment.Free (a : Assignment α) (p : Pair S α) : Prop := a.slots[p.slot]? = some none ∧ p.id ∉ a.taken

instance : Decidable (a.Free p) := inferInstanceAs (Decidable (_ ∧ _))

def Assignment.assign (a : Assignment α) (p : Pair S α) : Assignment α :=
  if a.Free p then { slots := a.slots.set p.slot (some p.id), taken := a.taken ++ [p.id] } else a

def matchBest [LT S] [DecidableLT S] (threshold : S) : List (Pair S α) → Assignment α → Assignment α
  | [], a => a
  | p :: pairs, a => if p.score < threshold then a else matchBest threshold pairs (a.assign p)

/-! ## One pair -/

theorem Assignment.assign_length : (a.assign p).slots.length = a.slots.length := by
  unfold Assignment.assign
  split
  · exact List.length_set
  · rfl

/-- What a slot holds after a pair: what it held, or the pair's id. -/
theorem Assignment.assign_has {slot : Nat} {id : α} :
    (a.assign p).has slot id ↔ a.has slot id ∨ a.Free p ∧ slot = p.slot ∧ id = p.id := by
  unfold Assignment.assign Assignment.has
  split
  · rename_i hfree
    by_cases hslot : p.slot = slot
    · subst hslot
      rw [List.getElem?_set_self (List.getElem?_eq_some_iff.mp hfree.1).1, hfree.1]
      simp [hfree, eq_comm]
    · rw [List.getElem?_set_ne hslot]
      simp [Ne.symm hslot]
  · rename_i hfree
    simp [hfree]

theorem Assignment.assign_taken {id : α} : id ∈ (a.assign p).taken ↔ id ∈ a.taken ∨ a.Free p ∧ id = p.id := by
  unfold Assignment.assign
  split
  · rename_i hfree
    simp [hfree]
  · rename_i hfree
    simp [hfree]

/-- No id is in two slots, and the ids in slots are not free. -/
structure OneToOne (a : Assignment α) : Prop where
  once : ∀ i j id, a.has i id → a.has j id → i = j
  taken : ∀ i id, a.has i id → id ∈ a.taken

theorem OneToOne.assign (h : OneToOne a) (p : Pair S α) : OneToOne (a.assign p) where
  once i j id hi hj := by
    rw [Assignment.assign_has] at hi hj
    rcases hi with hi | ⟨hfree, hi, hid⟩
    · rcases hj with hj | ⟨hfree, hj, hid⟩
      · exact h.once i j id hi hj
      · exact absurd (hid ▸ h.taken i id hi) hfree.2
    · rcases hj with hj | ⟨_, hj, _⟩
      · exact absurd (hid ▸ h.taken j id hj) hfree.2
      · rw [hi, hj]
  taken i id hi := by
    rw [Assignment.assign_has] at hi
    rw [Assignment.assign_taken]
    rcases hi with hi | ⟨hfree, _, hid⟩
    · exact .inl (h.taken i id hi)
    · exact .inr ⟨hfree, hid⟩

omit [DecidableEq α] in
theorem OneToOne.nodup (h : OneToOne a) : (a.slots.filterMap id).Nodup := by
  refine List.pairwise_filterMap.mpr (List.pairwise_iff_getElem.mpr fun i j hi hj hlt x hx y hy hxy => ?_)
  subst hxy
  have := h.once i j x (by rw [Assignment.has, List.getElem?_eq_getElem hi]; exact congrArg some hx)
    (by rw [Assignment.has, List.getElem?_eq_getElem hj]; exact congrArg some hy)
  omega

/-! ## All pairs -/

variable [LinearOrder S] {threshold : S}

theorem matchBest_oneToOne (h : OneToOne a) (pairs : List (Pair S α)) : OneToOne (matchBest threshold pairs a) := by
  induction pairs generalizing a with
  | nil => exact h
  | cons p pairs ih =>
    unfold matchBest
    split
    · exact h
    · exact ih (h.assign p)

theorem matchBest_length (pairs : List (Pair S α)) : (matchBest threshold pairs a).slots.length = a.slots.length := by
  induction pairs generalizing a with
  | nil => rfl
  | cons p pairs ih =>
    unfold matchBest
    split
    · rfl
    · rw [ih, Assignment.assign_length]

theorem matchBest_keeps (pairs : List (Pair S α)) {slot : Nat} {id : α} (h : a.has slot id) :
    (matchBest threshold pairs a).has slot id := by
  induction pairs generalizing a with
  | nil => exact h
  | cons p pairs ih =>
    unfold matchBest
    split
    · exact h
    · exact ih (Assignment.assign_has.mpr (.inl h))

/-- An id in a slot was there, or is that of a pair at or above the threshold. -/
theorem matchBest_source (pairs : List (Pair S α)) {slot : Nat} {id : α}
    (h : (matchBest threshold pairs a).has slot id) :
    a.has slot id ∨ ∃ p ∈ pairs, p.slot = slot ∧ p.id = id ∧ threshold ≤ p.score := by
  induction pairs generalizing a with
  | nil => exact .inl h
  | cons p pairs ih =>
    unfold matchBest at h
    split at h
    · exact .inl h
    · rename_i hscore
      rcases ih h with h | ⟨q, hq, hslot, hid, hq'⟩
      · rcases Assignment.assign_has.mp h with h | ⟨_, hslot, hid⟩
        · exact .inl h
        · exact .inr ⟨p, List.mem_cons_self, hslot.symm, hid.symm, not_lt.mp hscore⟩
      · exact .inr ⟨q, List.mem_cons_of_mem p hq, hslot, hid, hq'⟩

theorem matchBest_taken_mono (pairs : List (Pair S α)) {id : α} (h : id ∈ a.taken) :
    id ∈ (matchBest threshold pairs a).taken := by
  induction pairs generalizing a with
  | nil => exact h
  | cons p pairs ih =>
    unfold matchBest
    split
    · exact h
    · exact ih (Assignment.assign_taken.mpr (.inl h))

/-- **No blocking pair**: a pair whose id and slot were free lost one of them to a pair that scores as high. -/
theorem matchBest_stable {pairs : List (Pair S α)} (hsorted : pairs.Pairwise fun p q => q.score ≤ p.score)
    (hp : p ∈ pairs) (hscore : threshold ≤ p.score) (hfree : a.Free p) :
    ∃ q ∈ pairs, (matchBest threshold pairs a).has q.slot q.id ∧ p.score ≤ q.score ∧
      (q.slot = p.slot ∨ q.id = p.id) := by
  induction pairs generalizing a with
  | nil => exact absurd hp List.not_mem_nil
  | cons q pairs ih =>
    obtain ⟨hbest, hsorted⟩ := List.pairwise_cons.mp hsorted
    have hle : p.score ≤ q.score := by
      rcases List.mem_cons.mp hp with rfl | hp
      · exact le_refl _
      · exact hbest p hp
    unfold matchBest
    rw [if_neg (not_lt.mpr (le_trans hscore hle))]
    -- `p` loses to `q`, or is still free after it
    by_cases hlost : a.Free q ∧ (q.slot = p.slot ∨ q.id = p.id)
    · exact ⟨q, List.mem_cons_self, matchBest_keeps pairs (Assignment.assign_has.mpr (.inr ⟨hlost.1, rfl, rfl⟩)), hle,
        hlost.2⟩
    · have hfree' : (a.assign q).Free p := by
        unfold Assignment.assign
        split
        · rename_i hq
          have hne : q.slot ≠ p.slot ∧ q.id ≠ p.id :=
            ⟨fun h => hlost ⟨hq, .inl h⟩, fun h => hlost ⟨hq, .inr h⟩⟩
          refine ⟨?_, ?_⟩
          · simp only []
            rw [List.getElem?_set_ne hne.1]
            exact hfree.1
          · simp only [List.mem_append, List.mem_singleton, not_or]
            exact ⟨hfree.2, hne.2.symm⟩
        · exact hfree
      have hp' : p ∈ pairs := by
        rcases List.mem_cons.mp hp with rfl | hp
        · exact absurd ⟨hfree, .inl rfl⟩ hlost
        · exact hp
      obtain ⟨r, hr, hhas, hrscore, hsame⟩ := ih hsorted hp' hfree'
      exact ⟨r, List.mem_cons_of_mem q hr, hhas, hrscore, hsame⟩

end Zenod.Matching
