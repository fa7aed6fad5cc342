/-
An account with reservations: what it holds is not free to spend, except by
whoever owns the reservation. Spending and holding are admitted against the
free balance (`Step`); a debt may be taken without asking (`Run.debt`).

A step that is asked for never makes the account worse than empty
(`Step.slack_le`), so a run leaves it short by no more than the debts it took
(`Run.solvent`).
-/
import Mathlib.Algebra.Order.Ring.Defs
import Mathlib.Tactic.Linarith
import Mathlib.Logic.Relation

namespace Zenod

universe v

@[ext] structure Account (α : Type v) where
  balance : α
  held : α

namespace Account

variable {α : Type v} [CommRing α] [LinearOrder α] [IsStrictOrderedRing α]

/-- What is left beyond the reservations, negative when they are not covered. -/
def slack (a : Account α) : α := a.balance - a.held

/-- What a spender who owns nothing may spend. -/
def free (a : Account α) : α := max 0 a.slack

inductive Step (a : Account α) : Account α → Prop
  | credit (n : α) : 0 ≤ n → Step a ⟨a.balance + n, a.held⟩
  | hold (n : α) : n ≤ a.free → Step a ⟨a.balance, a.held + n⟩
  | release (n : α) : 0 ≤ n → Step a ⟨a.balance, a.held - n⟩
  /-- Spend `n` out of the free balance and an owned reservation, which is given up. -/
  | spend (n owned : α) : n ≤ a.free + owned → Step a ⟨a.balance - n, a.held - owned⟩

/-- Steps, and debts that add up to the index. -/
inductive Run (a : Account α) : α → Account α → Prop
  | refl : Run a 0 a
  | step {d : α} {b c : Account α} : Run a d b → Step b c → Run a d c
  | debt {d : α} {b : Account α} (n released : α) : Run a d b → 0 ≤ n → 0 ≤ released →
      Run a (d + n) ⟨b.balance - n, b.held - released⟩

theorem Step.slack_le {a b : Account α} (h : Step a b) : min 0 a.slack ≤ b.slack := by
  have hsum : min 0 a.slack + a.free = a.slack := by
    rw [free, min_add_max, zero_add]
  cases h with
  | credit n hn =>
    have := min_le_right 0 a.slack
    simp only [slack] at this ⊢
    linarith
  | hold n hn =>
    simp only [slack] at hsum ⊢
    linarith
  | release n hn =>
    have := min_le_right 0 a.slack
    simp only [slack] at this ⊢
    linarith
  | spend n owned hn =>
    simp only [slack] at hsum ⊢
    linarith

theorem Run.debt_nonneg {a b : Account α} {d : α} (h : Run a d b) : 0 ≤ d := by
  induction h with
  | refl => exact le_refl _
  | step _ _ ih => exact ih
  | debt n released _ hn _ ih => exact add_nonneg ih hn

/-- **An account is short by no more than the debts taken on it.** -/
theorem Run.solvent {a b : Account α} {d : α} (h : Run a d b) : min 0 a.slack ≤ b.slack + d := by
  induction h with
  | refl =>
    rw [add_zero]
    exact min_le_right _ _
  | @step d b c hrun hstep ih =>
    have hd := hrun.debt_nonneg
    have hbc := hstep.slack_le
    rcases le_total 0 b.slack with hb | hb
    · rw [min_eq_left hb] at hbc
      have := min_le_left 0 a.slack
      linarith
    · rw [min_eq_right hb] at hbc
      linarith
  | @debt d b n released hrun hn hr ih =>
    simp only [slack] at ih ⊢
    linarith

omit [IsStrictOrderedRing α] in
theorem Run.steps {a b c : Account α} {d : α} (h : Run a d b) (hs : Relation.ReflTransGen Step b c) : Run a d c := by
  induction hs with
  | refl => exact h
  | tail _ hstep ih => exact ih.step hstep

end Account

end Zenod
