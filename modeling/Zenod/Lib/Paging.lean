/-
Walking a list page by page. Each page but the last hands on its last item,
and the next page starts where `resume` finds that item to end.

`exact_iff`: the pages are the list, each item once and in order, if and only
if at every page boundary `resume` finds the boundary.
-/
import Mathlib.Algebra.BigOperators.Group.Finset.Basic
import Mathlib.Algebra.Order.BigOperators.Group.Finset

namespace Zenod.Paging

variable {α : Type}

/-- The pages from a page number and an offset on. -/
inductive Walk (items : List α) (resume : α → Option Nat) (limits : Nat → Nat) : Nat → Nat → List (List α) → Prop
  | last {n offset : Nat} (h : items.length ≤ offset + limits n) : Walk items resume limits n offset [items.drop offset]
  | next {n offset next : Nat} {a : α} {pages : List (List α)} (h : offset + limits n < items.length)
    (hlast : ((items.drop offset).take (limits n)).getLast? = some a) (hnext : resume a = some next)
    (rest : Walk items resume limits (n + 1) next pages) :
    Walk items resume limits n offset ((items.drop offset).take (limits n) :: pages)

variable {items : List α} {resume : α → Option Nat} {limits : Nat → Nat}

/-- Where the pages from number `n` to number `n + k` end, if none of them falls back. -/
def boundary (limits : Nat → Nat) (n offset k : Nat) : Nat := offset + ∑ i ∈ Finset.range (k + 1), limits (n + i)

theorem boundary_succ (n offset k : Nat) : boundary limits n offset (k + 1) = boundary limits (n + 1) (offset + limits n) k := by
  unfold boundary
  rw [Finset.sum_range_succ']
  have hshift : ∑ i ∈ Finset.range (k + 1), limits (n + (i + 1)) = ∑ i ∈ Finset.range (k + 1), limits (n + 1 + i) :=
    Finset.sum_congr rfl fun i _ => by rw [show n + (i + 1) = n + 1 + i by omega]
  rw [hshift, show n + 0 = n from rfl]
  omega

theorem boundary_zero (n offset : Nat) : boundary limits n offset 0 = offset + limits n := by
  simp [boundary]

variable (limits) in
theorem limits_le_boundary (n offset k : Nat) : offset + limits n ≤ boundary limits n offset k := by
  cases k with
  | zero => rw [boundary_zero]
  | succ k =>
    rw [boundary_succ]
    exact Nat.le_add_right _ _

/-- At each boundary before the end, the last item leads to the boundary. -/
def Resumes (items : List α) (resume : α → Option Nat) (limits : Nat → Nat) (n offset : Nat) : Prop :=
  ∀ k, boundary limits n offset k < items.length →
    ∀ a, items[boundary limits n offset k - 1]? = some a → resume a = some (boundary limits n offset k)

theorem getLast?_page {offset limit : Nat} (hpos : 0 < limit) (h : offset + limit ≤ items.length) :
    ((items.drop offset).take limit).getLast? = items[offset + limit - 1]? := by
  rw [List.getLast?_eq_getElem?, List.length_take, List.length_drop, Nat.min_eq_left (by omega),
    List.getElem?_take_of_lt (by omega), List.getElem?_drop]
  congr 1
  omega

/-- A walk whose boundaries are found gives what is left of the list. -/
theorem Resumes.exists_walk (hpos : ∀ n, 0 < limits n) {n offset : Nat} (h : Resumes items resume limits n offset) :
    ∃ pages, Walk items resume limits n offset pages ∧ pages.flatten = items.drop offset := by
  induction hleft : items.length - offset using Nat.strong_induction_on generalizing n offset with
  | _ left ih =>
    by_cases hend : items.length ≤ offset + limits n
    · exact ⟨[items.drop offset], .last hend, by rw [List.flatten_cons, List.flatten_nil, List.append_nil]⟩
    · have hlt : offset + limits n < items.length := by omega
      have hlimit := hpos n
      have hsome := List.getElem?_eq_getElem (show offset + limits n - 1 < items.length by omega)
      have hfound := h 0 (by rw [boundary_zero]; exact hlt) _ (by rw [boundary_zero]; exact hsome)
      rw [boundary_zero] at hfound
      have hrest : Resumes items resume limits (n + 1) (offset + limits n) := by
        intro k
        rw [← boundary_succ]
        exact h (k + 1)
      obtain ⟨pages, hwalk, hpages⟩ := ih _ (by omega) hrest rfl
      refine ⟨_, .next hlt ?_ hfound hwalk, ?_⟩
      · rw [getLast?_page hlimit hlt.le]
        exact hsome
      · rw [List.flatten_cons, hpages, ← List.drop_drop, List.take_append_drop]

/-- A walk gives at least what is left, and no more only if it never falls back. -/
theorem Walk.length_flatten (hback : ∀ i a next, items[i]? = some a → resume a = some next → next ≤ i + 1)
    (hpos : ∀ n, 0 < limits n) {n offset : Nat} {pages : List (List α)} (h : Walk items resume limits n offset pages) :
    items.length - offset ≤ pages.flatten.length ∧
      (pages.flatten.length = items.length - offset → Resumes items resume limits n offset) := by
  induction h with
  | @last n offset hend =>
    rw [List.flatten_cons, List.flatten_nil, List.append_nil, List.length_drop]
    refine ⟨Nat.le_refl _, fun _ k hk => ?_⟩
    have hle : offset + limits n ≤ boundary limits n offset k := limits_le_boundary limits n offset k
    omega
  | @next n offset next a pages hlt hlast hnext rest ih =>
    rw [getLast?_page (hpos n) hlt.le] at hlast
    have hlimit := hpos n
    have hle := hback _ a next hlast hnext
    rw [List.flatten_cons, List.length_append, List.length_take, List.length_drop, Nat.min_eq_left (by omega)]
    refine ⟨by omega, fun heq k hk b hb => ?_⟩
    -- The length leaves no room: the next page starts at the boundary.
    obtain rfl : next = offset + limits n := by omega
    cases k with
    | zero =>
      rw [boundary_zero] at hb ⊢
      rw [hlast] at hb
      rw [← Option.some.inj hb]
      exact hnext
    | succ k =>
      rw [boundary_succ] at hk hb ⊢
      exact ih.2 (by omega) k hk b hb

/-- **A walk gives the list, once and in order, exactly when every boundary is found again.** -/
theorem exact_iff (hback : ∀ i a next, items[i]? = some a → resume a = some next → next ≤ i + 1)
    (hpos : ∀ n, 0 < limits n) :
    (∃ pages, Walk items resume limits 0 0 pages ∧ pages.flatten = items) ↔ Resumes items resume limits 0 0 := by
  constructor
  · rintro ⟨pages, hwalk, hpages⟩
    exact (hwalk.length_flatten hback hpos).2 (by rw [hpages, Nat.sub_zero])
  · intro h
    obtain ⟨pages, hwalk, hpages⟩ := h.exists_walk hpos
    exact ⟨pages, hwalk, hpages⟩

end Zenod.Paging
