/-
Computations that may fail: what is known of one that returned.
-/
import Mathlib.Tactic.Common

namespace Zenod

theorem bind_ok {ε α β : Type} {x : Except ε α} {f : α → Except ε β} {y : β} :
    (x >>= f) = .ok y ↔ ∃ a, x = .ok a ∧ f a = .ok y := by
  cases x with
  | error e => simp [bind, Except.bind]
  | ok a => simp [bind, Except.bind]

theorem bind_unit_ok {ε β : Type} {x : Except ε Unit} {f : Unit → Except ε β} {y : β} :
    (x >>= f) = .ok y ↔ x = .ok () ∧ f () = .ok y := by
  rw [bind_ok]
  exact ⟨fun ⟨_, h⟩ => h, fun h => ⟨(), h⟩⟩

@[simp] theorem pure_ok {ε α : Type} {x y : α} : (pure x : Except ε α) = .ok y ↔ x = y := by
  simp [pure, Except.pure]

/-- Two continuations that agree on what the first part returns. -/
theorem bind_congr_ok {ε α β : Type} {x : Except ε α} {f g : α → Except ε β} (h : ∀ a, x = .ok a → f a = g a) :
    x >>= f = x >>= g := by
  cases x with
  | error e => rfl
  | ok a => exact h a rfl

theorem map_ok {ε α β : Type} {x : Except ε α} {f : α → β} {y : β} : x.map f = .ok y ↔ ∃ a, x = .ok a ∧ f a = y := by
  cases x with
  | error e => simp [Except.map]
  | ok a => simp [Except.map]

/-- A check that throws, in front of what follows. -/
theorem unless_ok {ε α : Type} {P : Prop} [Decidable P] {e : ε} {f : PUnit → Except ε α} {y : α} :
    (if P then throw e >>= f else f ⟨⟩) = .ok y ↔ ¬P ∧ f ⟨⟩ = .ok y := by
  by_cases hP : P
  · rw [if_pos hP]
    exact ⟨nofun, fun h => absurd hP h.1⟩
  · rw [if_neg hP]
    exact ⟨fun h => ⟨hP, h⟩, fun h => h.2⟩

end Zenod
