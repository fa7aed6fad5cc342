/-
Calls of one object, interleaved at the points where they wait. A call runs a
first segment at once and a further one each time what it waits for is there;
what is left of it in between is a frame. Any waiting call may be next.

`run_invariant`: what every move that meets a condition preserves holds after
every run whose moves meet it.
-/
import Mathlib.Algebra.BigOperators.Group.Multiset.Basic

namespace Zenod

universe u

/-- The segments of the calls of an object. -/
structure Interleaving (State Call Frame Reply : Type u) where
  start : Call → State → State × Option Frame
  resume : Frame → Reply → State → State × Option Frame

namespace Interleaving

variable {State Call Frame Reply : Type u} [DecidableEq Frame] (o : Interleaving State Call Frame Reply)

/-- The object between two segments, with the calls that wait. -/
structure Config (State Frame : Type u) where
  state : State
  pending : Multiset Frame

inductive Move (Call Frame Reply : Type u)
  | call (c : Call)
  | resume (f : Frame) (r : Reply)

/-- What a segment leaves beside the other calls. -/
def after (pending : Multiset Frame) (r : State × Option Frame) : Config State Frame where
  state := r.1
  pending := (r.2.elim 0 fun f => {f}) + pending

@[simp] theorem after_none (pending : Multiset Frame) (s : State) : after pending (s, none) = ⟨s, pending⟩ := by
  simp only [after, Option.elim, zero_add]

@[simp] theorem after_some (pending : Multiset Frame) (s : State) (f : Frame) :
    after pending (s, some f) = ⟨s, f ::ₘ pending⟩ := by
  simp only [after, Option.elim, Multiset.singleton_add]

/-- A segment runs; a reply that no call waits for goes nowhere. -/
def step (m : Move Call Frame Reply) (w : Config State Frame) : Config State Frame :=
  match m with
  | .call c => after w.pending (o.start c w.state)
  | .resume f r => if f ∈ w.pending then after (w.pending.erase f) (o.resume f r w.state) else w

def run : List (Move Call Frame Reply) → Config State Frame → Config State Frame
  | [], w => w
  | m :: moves, w => run moves (o.step m w)

/-- Each move meets the condition where it is made. -/
def Along (meets : Config State Frame → Move Call Frame Reply → Prop) :
    List (Move Call Frame Reply) → Config State Frame → Prop
  | [], _ => True
  | m :: moves, w => meets w m ∧ Along meets moves (o.step m w)

instance (meets : Config State Frame → Move Call Frame Reply → Prop) [∀ w m, Decidable (meets w m)] :
    ∀ (moves : List (Move Call Frame Reply)) (w : Config State Frame), Decidable (o.Along meets moves w)
  | [], _ => isTrue trivial
  | m :: moves, w => by
    have := instDecidableAlong meets moves (o.step m w)
    unfold Along
    infer_instance

variable {o} {meets : Config State Frame → Move Call Frame Reply → Prop}

/-- **A move runs one segment**, with the other calls waiting, or finds nothing to resume. -/
theorem step_cases (m : Move Call Frame Reply) (w : Config State Frame) :
    (∃ c, m = .call c ∧ o.step m w = after w.pending (o.start c w.state)) ∨
      (∃ f r fs, m = .resume f r ∧ w.pending = f ::ₘ fs ∧ o.step m w = after fs (o.resume f r w.state)) ∨
      o.step m w = w := by
  obtain ⟨s, pending⟩ := w
  cases m with
  | call c => exact Or.inl ⟨c, rfl, rfl⟩
  | resume f r =>
    by_cases hmem : f ∈ pending
    · obtain ⟨fs, rfl⟩ := Multiset.exists_cons_of_mem hmem
      refine Or.inr (Or.inl ⟨f, r, fs, rfl, rfl, ?_⟩)
      show (if f ∈ f ::ₘ fs then _ else _) = _
      rw [if_pos hmem]
      show after ((f ::ₘ fs).erase f) _ = _
      rw [Multiset.erase_cons_head]
    · exact Or.inr (Or.inr (if_neg hmem))

theorem run_invariant {Q : Config State Frame → Prop} (hstep : ∀ w m, meets w m → Q w → Q (o.step m w))
    {moves : List (Move Call Frame Reply)} {w : Config State Frame} (hmoves : o.Along meets moves w) (h : Q w) :
    Q (o.run moves w) := by
  induction moves generalizing w with
  | nil => exact h
  | cons m moves ih => exact ih hmoves.2 (hstep w m hmoves.1 h)

/-- Every run meets the condition that asks nothing. -/
theorem along_true (moves : List (Move Call Frame Reply)) (w : Config State Frame) : o.Along (fun _ _ => True) moves w := by
  induction moves generalizing w with
  | nil => trivial
  | cons m moves ih => exact ⟨trivial, ih _⟩

theorem along_append (first second : List (Move Call Frame Reply)) (w : Config State Frame) :
    o.Along meets (first ++ second) w ↔ o.Along meets first w ∧ o.Along meets second (o.run first w) := by
  induction first generalizing w with
  | nil => exact (and_iff_right trivial).symm
  | cons m first ih => exact (and_congr_right fun _ => ih (o.step m w)).trans and_assoc.symm

theorem run_append (first second : List (Move Call Frame Reply)) (w : Config State Frame) :
    o.run (first ++ second) w = o.run second (o.run first w) := by
  induction first generalizing w with
  | nil => rfl
  | cons m first ih => exact ih _

end Interleaving

end Zenod
