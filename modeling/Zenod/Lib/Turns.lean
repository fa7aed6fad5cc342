/-
Turns at a thing that one holder has at a time: it is taken, and given back by
the one who took it, or kept for good.

`Turns.returned`: between two turns the first holder gave the thing back.
-/
import Mathlib.Data.List.Induction

namespace Zenod

universe u

inductive Turn (Holder : Type u) | taken (holder : Holder) | returned (holder : Holder)
deriving DecidableEq

variable {Holder : Type u}

/-- A course of turns, and who holds the thing behind it. -/
inductive Turns : List (Turn Holder) → Option Holder → Prop
  | start : Turns [] none
  | taken {l} (o : Holder) (h : Turns l none) : Turns (l ++ [.taken o]) (some o)
  | returned {l} (o : Holder) (h : Turns l (some o)) : Turns (l ++ [.returned o]) none

def Turn.isTaken : Turn Holder → Bool
  | .taken _ => true
  | .returned _ => false

namespace Turns

variable {l xs ys zs : List (Turn Holder)} {h : Option Holder} {x : Turn Holder} {o o' : Holder}

/-- What precedes the last turn is a course, too. -/
theorem init (ht : Turns (l ++ [x]) h) : ∃ h', Turns l h' ∧ (∀ o, x = .taken o → h' = none) := by
  generalize hl : l ++ [x] = m at ht
  cases ht with
  | start => simp at hl
  | taken o ht =>
    obtain ⟨rfl, -⟩ := List.append_inj' hl rfl
    exact ⟨none, ht, fun _ _ => rfl⟩
  | returned o ht =>
    obtain ⟨rfl, hx⟩ := List.append_inj' hl rfl
    refine ⟨some o, ht, fun p hp => ?_⟩
    simp [hp] at hx

theorem of_append (ht : Turns (xs ++ ys) h) : ∃ h', Turns xs h' := by
  induction ys using List.reverseRecOn generalizing h with
  | nil => exact ⟨h, by rwa [List.append_nil] at ht⟩
  | append_singleton ys y ih =>
    rw [← List.append_assoc] at ht
    obtain ⟨h', ht', -⟩ := ht.init
    exact ih ht'

/-- The thing is taken as often as it is given back, and once more while it is held. -/
theorem count (ht : Turns l h) : l.countP (·.isTaken) = l.countP (!·.isTaken) + (if h.isSome then 1 else 0) := by
  induction ht with
  | start => rfl
  | taken o _ ih => simpa [List.countP_append, Turn.isTaken] using ih
  | returned o _ ih => simpa [List.countP_append, Turn.isTaken] using ih

/-- Who took the thing holds it, or gave it back since. -/
theorem holds_or_returned (ht : Turns (xs ++ .taken o :: ys) h) : h = some o ∨ .returned o ∈ ys := by
  induction ys using List.reverseRecOn generalizing h with
  | nil =>
    generalize hl : xs ++ [.taken o] = m at ht
    cases ht with
    | start => simp at hl
    | taken p _ =>
      have hp := (List.append_inj' hl rfl).2
      simp only [List.cons.injEq, Turn.taken.injEq, and_true] at hp
      exact Or.inl (congrArg some hp.symm)
    | returned p _ => simpa using (List.append_inj' hl rfl).2
  | append_singleton ys y ih =>
    rw [← List.cons_append, ← List.append_assoc] at ht
    generalize hl : xs ++ .taken o :: ys ++ [y] = m at ht
    cases ht with
    | start => simp at hl
    | taken p ht =>
      obtain ⟨rfl, -⟩ := List.append_inj' hl rfl
      rcases ih ht with h' | h'
      · cases h'
      · exact Or.inr (List.mem_append_left _ h')
    | returned p ht =>
      obtain ⟨rfl, hy⟩ := List.append_inj' hl rfl
      simp only [List.cons.injEq, and_true] at hy
      rcases ih ht with h' | h'
      · exact Or.inr (List.mem_append_right _ (by rw [hy, Option.some.inj h']; exact List.mem_singleton_self _))
      · exact Or.inr (List.mem_append_left _ h')

/-- **Between two turns the first holder gave the thing back.** -/
theorem returned_between (ht : Turns (xs ++ .taken o :: ys ++ .taken o' :: zs) h) : .returned o ∈ ys := by
  rw [show xs ++ .taken o :: ys ++ .taken o' :: zs = (xs ++ .taken o :: ys ++ [.taken o']) ++ zs by simp] at ht
  obtain ⟨h₁, ht₁⟩ := ht.of_append
  obtain ⟨h₂, ht₂, hfree⟩ := ht₁.init
  rcases ht₂.holds_or_returned with hheld | hreturned
  · rw [hfree o' rfl] at hheld
    cases hheld
  · exact hreturned

end Turns

end Zenod
