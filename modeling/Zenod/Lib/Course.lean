/-
Operations run one after the other, each from the state that the one before
left (`List.foldl exec`), and conditions that each of them meets where it runs.

`Along.invariant`: what every operation that meets a condition preserves holds
after every course whose operations meet it.
-/
import Mathlib.Init

namespace Zenod

universe u v

variable {State : Type u} {Op : Type v}

/-- Each operation of a course meets the condition in the state that it runs from. -/
def Along (exec : State → Op → State) (meets : State → Op → Prop) : List Op → State → Prop
  | [], _ => True
  | op :: ops, s => meets s op ∧ Along exec meets ops (exec s op)

variable {exec : State → Op → State} {meets meets' : State → Op → Prop} {first second ops : List Op} {s : State}

instance [∀ s op, Decidable (meets s op)] : ∀ (ops : List Op) (s : State), Decidable (Along exec meets ops s)
  | [], _ => isTrue trivial
  | op :: ops, s => by
    have := instDecidableAlong ops (exec s op)
    unfold Along
    infer_instance

namespace Along

theorem invariant {Q : State → Prop} (hstep : ∀ s op, meets s op → Q s → Q (exec s op)) (hops : Along exec meets ops s)
    (h : Q s) : Q (ops.foldl exec s) := by
  induction ops generalizing s with
  | nil => exact h
  | cons op ops ih => exact ih hops.2 (hstep s op hops.1 h)

theorem append : Along exec meets (first ++ second) s ↔
    Along exec meets first s ∧ Along exec meets second (first.foldl exec s) := by
  induction first generalizing s with
  | nil => exact (and_iff_right trivial).symm
  | cons op first ih => exact (and_congr_right fun _ => ih).trans and_assoc.symm

theorem both (h : Along exec meets ops s) (h' : Along exec meets' ops s) :
    Along exec (fun s op => meets s op ∧ meets' s op) ops s := by
  induction ops generalizing s with
  | nil => trivial
  | cons op ops ih => exact ⟨⟨h.1, h'.1⟩, ih h.2 h'.2⟩

/-- A condition on operations that each operation of the course meets. -/
theorem of_mem (h : ∀ op ∈ ops, ∀ s, meets s op) : Along exec meets ops s := by
  induction ops generalizing s with
  | nil => trivial
  | cons op ops ih => exact ⟨h op List.mem_cons_self s, ih fun op' hop => h op' (List.mem_cons_of_mem _ hop)⟩

end Along

end Zenod
