/-
Reachability in an append-only store of nodes, each naming earlier ones as its
parents: the relation, and the bounded search that decides it.

`reaches_iff`: in a store whose nodes only name earlier ones, the search finds
exactly what the relation relates. `reachable_iff`: what reaches a node is the
node itself or reaches one of its parents.
-/
import Mathlib.Logic.Relation

namespace Zenod.Dag

variable {α : Type} (parents : α → List Nat)

/-- `a` is a parent of `b`. -/
def IsParent (nodes : List α) (a b : Nat) : Prop := ∃ n, nodes[b]? = some n ∧ a ∈ parents n

/-- `b`, its parents, their parents and so on contain `a`. -/
def Reachable (nodes : List α) : Nat → Nat → Prop := Relation.ReflTransGen (IsParent parents nodes)

/-- Nodes name earlier nodes. -/
def Acyclic (nodes : List α) : Prop := ∀ a b, IsParent parents nodes a b → a < b

/-- The search, with as many generations as it is given. -/
def reachesIn (nodes : List α) : Nat → Nat → Nat → Bool
  | 0, a, b => a == b
  | fuel + 1, a, b => a == b ||
    match nodes[b]? with
    | some n => (parents n).any (reachesIn nodes fuel a)
    | none => false

def reaches (nodes : List α) (a b : Nat) : Bool := reachesIn parents nodes b a b

variable {parents} {nodes : List α}

theorem reachable_iff {a b : Nat} :
    Reachable parents nodes a b ↔ a = b ∨ ∃ p, IsParent parents nodes p b ∧ Reachable parents nodes a p := by
  constructor
  · intro h
    rcases Relation.ReflTransGen.cases_tail h with h | ⟨p, hap, hpb⟩
    · exact Or.inl h.symm
    · exact Or.inr ⟨p, hpb, hap⟩
  · intro h
    rcases h with rfl | ⟨p, hpb, hap⟩
    · exact Relation.ReflTransGen.refl
    · exact hap.tail hpb

theorem reachesIn_sound {fuel a b : Nat} (h : reachesIn parents nodes fuel a b = true) :
    Reachable parents nodes a b := by
  induction fuel generalizing b with
  | zero =>
    obtain rfl : a = b := by simpa [reachesIn] using h
    exact Relation.ReflTransGen.refl
  | succ fuel ih =>
    simp only [reachesIn, Bool.or_eq_true, beq_iff_eq] at h
    rw [reachable_iff]
    rcases h with h | h
    · exact Or.inl h
    · split at h
      next n hn =>
        obtain ⟨p, hp, hreach⟩ := List.any_eq_true.1 h
        exact Or.inr ⟨p, ⟨n, hn, hp⟩, ih hreach⟩
      next => cases h

theorem reachesIn_complete (hnodes : Acyclic parents nodes) {fuel a b : Nat} (hb : b ≤ fuel)
    (h : Reachable parents nodes a b) : reachesIn parents nodes fuel a b = true := by
  induction fuel generalizing b with
  | zero =>
    rcases reachable_iff.1 h with rfl | ⟨p, hpb, -⟩
    · simp [reachesIn]
    · have hlt := hnodes p b hpb
      omega
  | succ fuel ih =>
    simp only [reachesIn, Bool.or_eq_true, beq_iff_eq]
    rcases reachable_iff.1 h with rfl | ⟨p, ⟨n, hn, hp⟩, hap⟩
    · exact Or.inl rfl
    · right
      have hlt := hnodes p b ⟨n, hn, hp⟩
      rw [hn]
      exact List.any_eq_true.2 ⟨p, hp, ih (by omega) hap⟩

/-- **The search decides reachability.** -/
theorem reaches_iff (hnodes : Acyclic parents nodes) {a b : Nat} :
    reaches parents nodes a b = true ↔ Reachable parents nodes a b :=
  ⟨reachesIn_sound, reachesIn_complete hnodes (Nat.le_refl b)⟩

theorem reaches_self (a : Nat) : reaches parents nodes a a = true := by
  cases a <;> simp [reaches, reachesIn]

/-- A node on top of a store, with parents in it. -/
theorem Acyclic.concat (hnodes : Acyclic parents nodes) {n : α} (h : ∀ p ∈ parents n, p < nodes.length) :
    Acyclic parents (nodes ++ [n]) := by
  intro a b hab
  obtain ⟨m, hm, ha⟩ := hab
  rcases Nat.lt_or_ge b nodes.length with hb | hb
  · rw [List.getElem?_append_left hb] at hm
    exact hnodes a b ⟨m, hm, ha⟩
  · rw [List.getElem?_append_right hb] at hm
    obtain rfl := List.mem_singleton.1 (List.mem_of_getElem? hm)
    exact Nat.lt_of_lt_of_le (h a ha) hb

/-- Nothing but itself reaches a node from above it. -/
theorem Reachable.le (hnodes : Acyclic parents nodes) {a b : Nat} (h : Reachable parents nodes a b) : a ≤ b := by
  induction h with
  | refl => exact Nat.le_refl a
  | tail _ hstep ih =>
    have hlt := hnodes _ _ hstep
    omega

end Zenod.Dag
