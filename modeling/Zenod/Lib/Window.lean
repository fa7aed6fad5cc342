/-
A sliding window over times in milliseconds: the times of the last `w` before
`t`, and when fewer than `m` of them are left.

`window_waiting`, `first_left`: the wait for the oldest time to leave, in whole
seconds, is neither too long nor too short; `length_window_lt_iff`: fewer than
`m` are left once the `m`-th newest has left.
-/
import Mathlib.Data.List.Basic
import Mathlib.Data.List.Sort

namespace Zenod.Window

/-- The times that count at `t`. -/
def window (w t : Int) (times : List Int) : List Int := times.filter fun x => t - x < w

/-- `Math.ceil(ms / 1000)`. -/
def ceilSeconds (ms : Int) : Int := -((-ms) / 1000)

variable {w t now : Int} {times : List Int}

theorem mem_window {x : Int} : x ∈ window w t times ↔ x ∈ times ∧ t - x < w := by simp [window]

theorem window_sublist : (window w t times).Sublist times := List.filter_sublist

theorem window_append (later : List Int) : window w t (times ++ later) = window w t times ++ window w t later :=
  List.filter_append _ _

/-- What counts later is among what counts now. -/
theorem window_window (h : now ≤ t) : window w t (window w now times) = window w t times := by
  unfold window
  rw [List.filter_filter]
  refine List.filter_congr fun x _ => ?_
  rw [Bool.eq_iff_iff]
  simp only [Bool.and_eq_true, decide_eq_true_eq]
  omega

theorem window_length_le (h : now ≤ t) : (window w t times).length ≤ (window w now times).length := by
  rw [← window_window h]
  exact window_sublist.length_le

/-- In the order of time, fewer than `m` are left when the `m`-th newest has left. -/
theorem length_window_lt_iff (hsorted : times.Pairwise (· ≤ ·)) {m : Nat} (hm : m ≤ times.length) :
    (window w t times).length < m ↔ ∃ x, times[times.length - m]? = some x ∧ x + w ≤ t := by
  have hcut := List.take_append_drop (times.length - m) times
  have hsplit : times.Pairwise (· ≤ ·) := hsorted
  rw [← hcut, List.pairwise_append] at hsplit
  obtain ⟨_, _, hle⟩ := hsplit
  constructor
  · intro hlt
    have hpos : 0 < m := Nat.lt_of_le_of_lt (Nat.zero_le _) hlt
    have hi : times.length - m < times.length := by omega
    refine ⟨times[times.length - m], List.getElem?_eq_getElem hi, ?_⟩
    by_contra hin
    -- all from there on are in the window
    have hall : window w t (times.drop (times.length - m)) = times.drop (times.length - m) := by
      unfold window
      rw [List.filter_eq_self]
      intro x hx
      rw [List.drop_eq_getElem_cons hi] at hx
      have hfirst : times[times.length - m] ≤ x := by
        rcases List.mem_cons.mp hx with rfl | hx
        · exact le_refl _
        · have hdrop := hsorted.sublist (List.drop_sublist (times.length - m) times)
          rw [List.drop_eq_getElem_cons hi] at hdrop
          exact (List.pairwise_cons.mp hdrop).1 x hx
      simp only [decide_eq_true_eq]
      omega
    have hlength : m ≤ (window w t times).length := by
      rw [← hcut, window_append, hall, List.length_append, List.length_drop]
      omega
    omega
  · rintro ⟨x, hx, hout⟩
    obtain ⟨hi, rfl⟩ := List.getElem?_eq_some_iff.mp hx
    have hnone : window w t (times.take (times.length - m + 1)) = [] := by
      unfold window
      rw [List.filter_eq_nil_iff]
      intro y hy
      rw [List.take_succ_eq_append_getElem hi, List.mem_append] at hy
      have hlast : y ≤ times[times.length - m] := by
        rcases hy with hy | hy
        · exact hle y hy _ (by rw [List.drop_eq_getElem_cons hi]; exact List.mem_cons_self)
        · rw [List.mem_singleton.mp hy]
      simp only [decide_eq_true_eq]
      omega
    have hcut' := List.take_append_drop (times.length - m + 1) times
    have hlength : (window w t times).length ≤ (times.drop (times.length - m + 1)).length := by
      conv_lhs => rw [← hcut', window_append, hnone, List.nil_append]
      exact window_sublist.length_le
    rw [List.length_drop] at hlength
    omega

/-- While the oldest time has not left the window, nothing has. -/
theorem window_whole (hsorted : times.Pairwise (· ≤ ·)) {first : Int} (hfirst : times.head? = some first)
    (hin : t - first < w) : window w t times = times := by
  unfold window
  rw [List.filter_eq_self]
  intro x hx
  cases times with
  | nil => exact absurd hx List.not_mem_nil
  | cons y times =>
    simp only [List.head?_cons, Option.some.injEq] at hfirst
    subst hfirst
    have : y ≤ x := by
      rcases List.mem_cons.mp hx with rfl | hx
      · exact le_refl _
      · exact (List.pairwise_cons.mp hsorted).1 x hx
    simp only [decide_eq_true_eq]
    omega

/-- The wait until the oldest time leaves the window, in whole seconds and at least one. -/
def waitOf (w now : Int) (times : List Int) : Int :=
  match times with
  | [] => 0
  | first :: _ => max 1 (ceilSeconds (first + w - now))

/-- **Waiting**: before it is over nothing has left the window. -/
theorem window_waiting (hsorted : times.Pairwise (· ≤ ·)) (hin : ∀ x ∈ times, now - x < w) {k : Int}
    (hlt : k < waitOf w now times) : window w (now + 1000 * k) times = times := by
  cases times with
  | nil => rfl
  | cons first times =>
    have hfirst := hin first List.mem_cons_self
    refine window_whole hsorted rfl ?_
    simp only [waitOf, ceilSeconds] at hlt
    omega

/-- When it is over the oldest time has left. -/
theorem first_left {first : Int} (hfirst : times.head? = some first) : first + w ≤ now + 1000 * waitOf w now times := by
  cases times with
  | nil => cases hfirst
  | cons x times =>
    simp only [List.head?_cons, Option.some.injEq] at hfirst
    subst hfirst
    simp only [waitOf, ceilSeconds]
    omega

theorem waitOf_nonneg : 0 ≤ waitOf w now times := by
  unfold waitOf
  split <;> omega

end Zenod.Window
