/-
Following a partial function from one element to the next: the walk, the trail
it leaves, and when it comes back to where it was.
-/
import Mathlib.Data.Fintype.Pigeonhole
import Mathlib.Data.Set.Finite.Basic

namespace Zenod.Walk

universe u

variable {α : Type u} (next : α → Option α)

/-- Where `k` steps lead. -/
def walk : Nat → α → Option α
  | 0, p => some p
  | k + 1, p => (next p).bind (walk k)

/-- The elements of the first `k` steps, the last of them first. -/
def trail : Nat → α → List α
  | 0, p => [p]
  | k + 1, p => (next p).elim [] (trail k) ++ [p]

variable {next} {p q r : α} {i j k n : Nat}

theorem walk_add (i j : Nat) (p : α) : walk next (i + j) p = (walk next i p).bind (walk next j) := by
  induction i generalizing p with
  | zero => rw [Nat.zero_add]; rfl
  | succ i ih =>
    rw [Nat.succ_add]
    show (next p).bind (walk next (i + j)) = ((next p).bind (walk next i)).bind (walk next j)
    rw [Option.bind_assoc]
    exact congrArg (next p).bind (funext ih)

theorem walk_succ (k : Nat) (p : α) : walk next (k + 1) p = (walk next k p).bind next := by
  rw [walk_add]
  refine congrArg (walk next k p).bind (funext fun q => ?_)
  exact Option.bind_fun_some (next q)

/-- A walk that goes on has been everywhere before. -/
theorem walk_of_le (h : walk next k p = some r) (hi : i ≤ k) :
    ∃ q, walk next i p = some q ∧ walk next (k - i) q = some r := by
  obtain ⟨j, rfl⟩ := Nat.exists_eq_add_of_le hi
  rw [walk_add, Option.bind_eq_some_iff] at h
  obtain ⟨q, hq, hr⟩ := h
  exact ⟨q, hq, by rwa [Nat.add_sub_cancel_left]⟩

/-- From the same element walks lead the same way. -/
theorem walk_revisit (h : walk next i p = walk next j p) (n : Nat) : walk next (i + n) p = walk next (j + n) p := by
  rw [walk_add, walk_add, h]

/-- **A walk to the first element of a kind** comes nowhere twice. -/
theorem walk_injective {P : α → Prop} (h : walk next k p = some r) (hr : P r)
    (hfirst : ∀ i < k, ∀ q, walk next i p = some q → ¬P q) (hij : i < j) (hj : j ≤ k) : walk next i p ≠ walk next j p := by
  intro hsame
  have hback := walk_revisit hsame (k - j)
  rw [Nat.add_sub_cancel' hj, h] at hback
  exact hfirst (i + (k - j)) (by omega) r hback hr

/-- **A walk that comes back does not end.** -/
theorem isSome_of_revisit (hsame : walk next i p = walk next j p) (hij : i < j) (hsome : (walk next j p).isSome) (n : Nat) :
    (walk next n p).isSome := by
  induction n using Nat.strongRecOn with
  | ind n ih =>
    by_cases hn : n ≤ j
    · obtain ⟨r, hr⟩ := Option.isSome_iff_exists.1 hsome
      obtain ⟨q, hq, -⟩ := walk_of_le hr hn
      rw [hq]
      rfl
    · have hback := walk_revisit hsame (n - j)
      rw [Nat.add_sub_cancel' (by omega)] at hback
      rw [← hback]
      exact ih _ (by omega)

/-- **In a list, a walk that does not end comes back.** -/
theorem exists_revisit {S : List α} (h : ∀ n, ∃ q ∈ S, walk next n p = some q) :
    ∃ i j, i < j ∧ walk next i p = walk next j p := by
  choose f hmem hwalk using h
  have hfinite : Finite {q // q ∈ S} := S.finite_toSet.to_subtype
  obtain ⟨i, j, hne, hsame⟩ := Finite.exists_ne_map_eq_of_infinite fun n => (⟨f n, hmem n⟩ : {q // q ∈ S})
  have hf : f i = f j := congrArg Subtype.val hsame
  rcases Nat.lt_or_gt_of_ne hne with hlt | hlt
  · exact ⟨i, j, hlt, by rw [hwalk, hwalk, hf]⟩
  · exact ⟨j, i, hlt, by rw [hwalk, hwalk, hf]⟩

/-! ## Trails -/

theorem trail_succ (h : next p = some q) (k : Nat) : trail next (k + 1) p = trail next k q ++ [p] := by
  show (next p).elim [] (trail next k) ++ [p] = _
  rw [h]
  rfl

theorem mem_trail (h : q ∈ trail next k p) : ∃ i ≤ k, walk next i p = some q := by
  induction k generalizing p with
  | zero =>
    rw [List.mem_singleton.1 h]
    exact ⟨0, le_refl 0, rfl⟩
  | succ k ih =>
    rcases List.mem_append.1 h with h | h
    · cases hp : next p with
      | none =>
        rw [hp] at h
        cases h
      | some p' =>
        rw [hp] at h
        obtain ⟨i, hi, hq⟩ := ih h
        refine ⟨i + 1, Nat.succ_le_succ hi, ?_⟩
        show (next p).bind _ = _
        rw [hp]
        exact hq
    · rw [List.mem_singleton.1 h]
      exact ⟨0, Nat.zero_le _, rfl⟩

/-- The trail of a walk begins with the trail of what it came to on the way. -/
theorem trail_add (h : walk next i p = some q) (j : Nat) :
    trail next (i + j) p = trail next j q ++ (trail next i p).tail := by
  induction i generalizing p with
  | zero =>
    obtain rfl := Option.some.inj h
    rw [Nat.zero_add]
    exact (List.append_nil _).symm
  | succ i ih =>
    obtain ⟨p', hp, hq⟩ := Option.bind_eq_some_iff.1 h
    rw [Nat.succ_add, trail_succ hp, trail_succ hp, ih hq]
    cases htrail : trail next i p' with
    | nil =>
      have hnonempty : ∀ k p, trail next k p ≠ [] := by
        intro k p
        cases k <;> simp [trail]
      exact absurd htrail (hnonempty i p')
    | cons x l =>
      rw [List.tail_cons, List.append_assoc]
      rfl

theorem length_trail (h : walk next k p = some r) : (trail next k p).length = k + 1 := by
  induction k generalizing p with
  | zero => rfl
  | succ k ih =>
    obtain ⟨p', hp, hr⟩ := Option.bind_eq_some_iff.1 h
    rw [trail_succ hp, List.length_append, ih hr]
    rfl

theorem head?_trail (h : walk next k p = some r) : (trail next k p).head? = some r := by
  have hadd := trail_add h 0
  rw [Nat.add_zero] at hadd
  rw [hadd]
  rfl

theorem getLast?_trail (k : Nat) (p : α) : (trail next k p).getLast? = some p := by
  cases k with
  | zero => rfl
  | succ k => exact List.getLast?_concat

/-- **Each element of a trail leads to the one before it.** -/
theorem isChain_trail (h : walk next k p = some r) : (trail next k p).IsChain fun a b => next b = some a := by
  induction k generalizing p with
  | zero => exact .singleton p
  | succ k ih =>
    obtain ⟨p', hp, hr⟩ := Option.bind_eq_some_iff.1 h
    rw [trail_succ hp, List.isChain_append]
    refine ⟨ih hr, .singleton p, fun a ha b hb => ?_⟩
    rw [getLast?_trail] at ha
    obtain rfl := Option.some.inj ha
    obtain rfl := Option.some.inj hb
    exact hp

theorem nodup_trail (h : ∀ i j, i < j → j ≤ k → walk next i p ≠ walk next j p) : (trail next k p).Nodup := by
  induction k generalizing p with
  | zero => exact List.nodup_singleton p
  | succ k ih =>
    cases hp : next p with
    | none =>
      show ((next p).elim [] (trail next k) ++ [p]).Nodup
      rw [hp]
      exact List.nodup_singleton p
    | some p' =>
      have hsucc : ∀ i, walk next (i + 1) p = walk next i p' := by
        intro i
        show (next p).bind _ = _
        rw [hp]
        rfl
      rw [trail_succ hp, List.nodup_append]
      refine ⟨ih fun i j hij hj => ?_, List.nodup_singleton p, fun a ha b hb => ?_⟩
      · rw [← hsucc, ← hsucc]
        exact h _ _ (Nat.succ_lt_succ hij) (Nat.succ_le_succ hj)
      · rintro rfl
        obtain rfl := List.mem_singleton.1 hb
        obtain ⟨i, hi, hq⟩ := mem_trail ha
        exact h 0 (i + 1) (Nat.succ_pos i) (Nat.succ_le_succ hi) (by rw [hsucc, hq]; rfl)

end Zenod.Walk
