/-
Extents of a sequence of places, half open: from the first one to in front of
the second. `Tiles`: extents that follow one another without a gap. `gaps`: what
extents leave over of a range, found by one sweep over them in order.
-/
import Mathlib.Tactic.Common
import Mathlib.Order.Defs.LinearOrder
import Mathlib.Data.Int.Order.Basic

namespace Zenod

/-! ## Extents without a gap -/

/-- The extents run from one offset to another, each from where the one before ends. -/
def Tiles : Int → Int → List (Int × Int) → Prop
  | start, stop, [] => start = stop
  | start, stop, extent :: rest => extent.1 = start ∧ extent.1 ≤ extent.2 ∧ Tiles extent.2 stop rest

theorem Tiles.split {start stop : Int} {first second : List (Int × Int)} (h : Tiles start stop (first ++ second)) :
    ∃ middle, Tiles start middle first ∧ Tiles middle stop second := by
  induction first generalizing start with
  | nil => exact ⟨start, rfl, h⟩
  | cons extent rest ih =>
    obtain ⟨middle, hfirst, hsecond⟩ := ih h.2.2
    exact ⟨middle, ⟨h.1, h.2.1, hfirst⟩, hsecond⟩

theorem Tiles.le {start stop : Int} {extents : List (Int × Int)} (h : Tiles start stop extents) : start ≤ stop := by
  induction extents generalizing start with
  | nil => exact le_of_eq h
  | cons extent rest ih => exact h.1 ▸ le_trans h.2.1 (ih h.2.2)

theorem Tiles.bounds {start stop : Int} {extents : List (Int × Int)} (h : Tiles start stop extents) :
    ∀ extent ∈ extents, start ≤ extent.1 ∧ extent.1 ≤ extent.2 ∧ extent.2 ≤ stop := by
  induction extents generalizing start with
  | nil => simp
  | cons extent rest ih =>
    obtain ⟨hstart, hle, hrest⟩ := h
    intro e he
    rcases List.mem_cons.1 he with rfl | he
    · exact ⟨le_of_eq hstart.symm, hle, hrest.le⟩
    · have hbounds := ih hrest e he
      omega

theorem Tiles.pairwise {start stop : Int} {extents : List (Int × Int)} (h : Tiles start stop extents) :
    extents.Pairwise fun e f => e.2 ≤ f.1 := by
  induction extents generalizing start with
  | nil => exact List.Pairwise.nil
  | cons extent rest ih => exact List.pairwise_cons.2 ⟨fun f hf => (h.2.2.bounds f hf).1, ih h.2.2⟩

/-! ## Gaps between extents -/

/-- One sweep over extents sorted by where they start: from the end of those before to the start of the next, where
that is kept. -/
def gaps (keep : Int → Int → Bool) : Int → List (Int × Int) → List (Int × Int)
  | _, [] => []
  | cursor, extent :: rest =>
    (if cursor < extent.1 && keep cursor extent.1 then [(cursor, extent.1)] else []) ++ gaps keep (max cursor extent.2) rest

variable {keep : Int → Int → Bool} {cursor : Int} {extents : List (Int × Int)}

/-- A place lies in an extent. -/
def Within (i : Int) (extent : Int × Int) : Prop := extent.1 ≤ i ∧ i < extent.2

/-- A gap runs from the cursor on to where an extent starts. -/
theorem gaps_start : ∀ gap ∈ gaps keep cursor extents,
    cursor ≤ gap.1 ∧ gap.1 < gap.2 ∧ ∃ extent ∈ extents, gap.2 = extent.1 := by
  induction extents generalizing cursor with
  | nil => simp [gaps]
  | cons extent rest ih =>
    intro gap hgap
    rcases List.mem_append.1 hgap with hgap | hgap
    · split at hgap
      next hopen =>
        rw [List.mem_singleton] at hgap
        have hlt := of_decide_eq_true (Bool.and_eq_true_iff.1 hopen).1
        rw [hgap]
        exact ⟨le_refl _, hlt, extent, List.mem_cons_self, rfl⟩
      next => cases hgap
    · obtain ⟨hstart, hlt, e, he, hstop⟩ := ih gap hgap
      exact ⟨le_trans (le_max_left _ _) hstart, hlt, e, List.mem_cons_of_mem _ he, hstop⟩

/-- **Gaps follow one another.** -/
theorem gaps_ordered (hproper : ∀ extent ∈ extents, extent.1 ≤ extent.2) (cursor : Int) :
    (gaps keep cursor extents).Pairwise fun e f => e.2 ≤ f.1 := by
  induction extents generalizing cursor with
  | nil => exact List.Pairwise.nil
  | cons extent rest ih =>
    have hrest := fun e he => hproper e (List.mem_cons_of_mem extent he)
    refine List.pairwise_append.2 ⟨?_, ih hrest _, ?_⟩
    · split
      · exact List.pairwise_singleton _ _
      · exact List.Pairwise.nil
    · intro e he f hf
      split at he
      next =>
        obtain ⟨hstart, -, -⟩ := gaps_start f hf
        rw [List.mem_singleton.1 he]
        have hle := hproper extent List.mem_cons_self
        exact le_trans (le_trans hle (le_max_right _ _)) hstart
      next => cases he

/-- **No gap has a place of an extent.** -/
theorem gaps_free (hsorted : extents.Pairwise fun e f => e.1 ≤ f.1) {gap : Int × Int} {i : Int}
    (hgap : gap ∈ gaps keep cursor extents) (hi : Within i gap) : ∀ extent ∈ extents, ¬Within i extent := by
  induction extents generalizing cursor with
  | nil => cases hgap
  | cons first rest ih =>
    obtain ⟨hfirst, hrest⟩ := List.pairwise_cons.1 hsorted
    intro extent hextent hin
    rcases List.mem_append.1 hgap with hgap | hgap
    · split at hgap
      next =>
        rw [List.mem_singleton.1 hgap] at hi
        -- Every extent from here on starts behind the gap.
        have hle : first.1 ≤ extent.1 := by
          rcases List.mem_cons.1 hextent with rfl | hextent
          · exact le_refl _
          · exact hfirst extent hextent
        exact absurd hi.2 (not_lt_of_ge (le_trans hle hin.1))
      next => cases hgap
    · rcases List.mem_cons.1 hextent with rfl | hextent
      · have hstart := gaps_start gap hgap
        exact absurd hin.2 (not_lt_of_ge (le_trans (le_trans (le_max_right _ _) hstart.1) hi.1))
      · exact ih hrest hgap extent hextent hin

/-- **A place of no extent is in a gap**, if an extent starts behind it and the stretch it is in is kept. -/
theorem gaps_whole {i : Int} (hcursor : cursor ≤ i) (hfree : ∀ extent ∈ extents, ¬Within i extent)
    (hbehind : ∃ extent ∈ extents, i < extent.1) (hkeep : ∀ start stop, cursor ≤ start → Within i (start, stop) → keep start stop = true) :
    ∃ gap ∈ gaps keep cursor extents, Within i gap := by
  induction extents generalizing cursor with
  | nil =>
    obtain ⟨extent, hextent, -⟩ := hbehind
    cases hextent
  | cons first rest ih =>
    by_cases hbefore : i < first.1
    · have hopen : (cursor < first.1 && keep cursor first.1) = true :=
        Bool.and_eq_true_iff.2 ⟨decide_eq_true (lt_of_le_of_lt hcursor hbefore), hkeep cursor first.1 (le_refl _) ⟨hcursor, hbefore⟩⟩
      exact ⟨(cursor, first.1), List.mem_append_left _ (by rw [if_pos hopen]; exact List.mem_singleton_self _), hcursor, hbefore⟩
    · have hpast : first.2 ≤ i := by
        by_contra hlt
        exact hfree first List.mem_cons_self ⟨not_lt.1 hbefore, not_le.1 hlt⟩
      have hlater : ∃ extent ∈ rest, i < extent.1 := by
        obtain ⟨extent, hextent, hlt⟩ := hbehind
        rcases List.mem_cons.1 hextent with rfl | hextent
        · exact absurd hlt hbefore
        · exact ⟨extent, hextent, hlt⟩
      obtain ⟨gap, hgap, hin⟩ := ih (max_le hcursor hpast) (fun e he => hfree e (List.mem_cons_of_mem _ he)) hlater
        (fun start stop hle => hkeep start stop (le_trans (le_max_left _ _) hle))
      exact ⟨gap, List.mem_append_right _ hgap, hin⟩

/-- A place is in one of the extents that follow one another at most. -/
theorem within_unique (hordered : extents.Pairwise fun e f => e.2 ≤ f.1) {i : Int} {e f : Int × Int} (he : e ∈ extents)
    (hf : f ∈ extents) (hie : Within i e) (hif : Within i f) : e = f := by
  by_contra hne
  induction extents with
  | nil => cases he
  | cons first rest ih =>
    obtain ⟨hfirst, hrest⟩ := List.pairwise_cons.1 hordered
    rcases List.mem_cons.1 he with rfl | he' <;> rcases List.mem_cons.1 hf with rfl | hf'
    · exact hne rfl
    · exact absurd hie.2 (not_lt_of_ge (le_trans (hfirst f hf') hif.1))
    · exact absurd hif.2 (not_lt_of_ge (le_trans (hfirst e he') hie.1))
    · exact ih hrest he' hf'

end Zenod
