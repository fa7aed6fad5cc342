/-
A text cut at every mark (`Text.pieces`), told by its first mark.

`cut_eq_iff`: a mark that was put between two texts is the first one unless
another ends before it does. `pieces_of_cut`: the first piece stands before
the first mark, and the others are the pieces of what is behind it.
-/
import Zenod.Lib.Text

namespace Zenod.Text

/-! ## The first mark -/

theorem cut_eq_none {mark t : Text} : cut mark t = none ↔ ¬mark <:+: t := by
  rw [← includes_iff, includes, Option.not_isSome_iff_eq_none]

/-- **The mark that was put is the first one** unless another ends before it. -/
theorem cut_eq_iff {mark : Text} (hne : mark ≠ []) (a b : Text) :
    cut mark (a ++ mark ++ b) = some (a, b) ↔ ¬mark <:+: a ++ mark.dropLast := by
  have hlast : mark = mark.dropLast ++ [mark.getLast hne] := (List.dropLast_append_getLast hne).symm
  have hlength : mark.dropLast.length + 1 = mark.length := by
    rw [List.length_dropLast]
    have := List.length_pos_iff.2 hne
    omega
  induction a with
  | nil =>
    rw [List.nil_append, List.nil_append]
    refine iff_of_true (cut_append_self mark b) fun h => ?_
    have := h.length_le
    omega
  | cons c a ih =>
    -- A mark at the front of the whole text ends before the last character of the one behind it.
    have hfront : mark <+: c :: (a ++ mark ++ b) ↔ mark <+: c :: (a ++ mark.dropLast) := by
      have hpre : c :: (a ++ mark.dropLast) <+: c :: (a ++ mark ++ b) := by
        rw [List.append_assoc, List.cons_prefix_cons]
        refine ⟨rfl, (List.prefix_append_right_inj a).2 ?_⟩
        exact (List.dropLast_prefix mark).trans (List.prefix_append _ _)
      refine ⟨fun h => List.prefix_of_prefix_length_le h hpre ?_, fun h => h.trans hpre⟩
      rw [List.length_cons, List.length_append]
      omega
    rw [List.cons_append, List.cons_append, List.cons_append, List.infix_cons_iff, not_or, ← hfront]
    by_cases hstart : mark <+: c :: (a ++ mark ++ b)
    · rw [cut, if_pos (startsWith_iff.2 hstart)]
      exact iff_of_false (fun h => (by cases h)) fun h => h.1 hstart
    · rw [cut_cons_of_not_start hstart, Option.map_eq_some_iff]
      constructor
      · rintro ⟨r, hr, heq⟩
        cases heq
        exact ⟨hstart, ih.1 hr⟩
      · rintro ⟨-, hr⟩
        exact ⟨(a, b), ih.2 hr, rfl⟩

/-- The first mark stands no later than one that was put. -/
theorem cut_append (mark a b : Text) :
    ∃ r, cut mark (a ++ mark ++ b) = some r ∧ r.1 <+: a := by
  induction a with
  | nil => exact ⟨([], b), cut_append_self mark b, List.nil_prefix⟩
  | cons c a ih =>
    by_cases hstart : mark <+: c :: (a ++ mark ++ b)
    · refine ⟨([], (c :: (a ++ mark ++ b)).drop mark.length), ?_, List.nil_prefix⟩
      rw [List.cons_append, List.cons_append, cut, if_pos (startsWith_iff.2 hstart)]
    · obtain ⟨r, hr, hpre⟩ := ih
      refine ⟨(c :: r.1, r.2), ?_, List.cons_prefix_cons.2 ⟨rfl, hpre⟩⟩
      rw [List.cons_append, List.cons_append, cut_cons_of_not_start hstart, hr]
      rfl

/-- A mark that starts with a newline does not start inside a line. -/
theorem infix_newline {m l : Text} (h : SingleLine l) (r : Text) :
    '\n' :: m <:+: l ++ '\n' :: r ↔ m <+: r ∨ '\n' :: m <:+: r := by
  induction l with
  | nil => rw [List.nil_append, List.infix_cons_iff, List.cons_prefix_cons, and_iff_right rfl]
  | cons c l ih =>
    have hc : c ≠ '\n' := fun heq => h (heq ▸ List.mem_cons_self)
    rw [List.cons_append, List.infix_cons_iff, List.cons_prefix_cons, ih fun hl => h (List.mem_cons_of_mem _ hl)]
    exact ⟨fun h => h.resolve_left fun h => hc h.1.symm, Or.inr⟩

/-! ## The pieces -/

theorem piecesFrom_eq (mark : Text) (n : Nat) (t : Text) : piecesFrom mark n t = pieces mark (t.drop n) := by
  induction n generalizing t with
  | zero => rfl
  | succ n ih =>
    cases t with
    | nil => simp [piecesFrom, pieces]
    | cons c t => rw [piecesFrom, ih, List.drop_succ_cons]

theorem pieces_of_cut {mark : Text} (hne : mark ≠ []) {t : Text} {r : Text × Text} (h : cut mark t = some r) :
    pieces mark t = r.1 :: pieces mark r.2 := by
  induction t generalizing r with
  | nil =>
    rw [cut, if_neg hne] at h
    cases h
  | cons c t ih =>
    by_cases hstart : mark <+: c :: t
    · rw [cut, if_pos (startsWith_iff.2 hstart)] at h
      cases h
      obtain ⟨x, mark, rfl⟩ := List.exists_cons_of_ne_nil hne
      rw [pieces, piecesFrom, if_pos (startsWith_iff.2 hstart), piecesFrom_eq]
      rfl
    · rw [cut_cons_of_not_start hstart] at h
      obtain ⟨q, hq, rfl⟩ := Option.map_eq_some_iff.1 h
      rw [pieces, piecesFrom, if_neg fun h => hstart (startsWith_iff.1 h)]
      show (pieces mark t).modifyHead (c :: ·) = _
      rw [ih hq]
      rfl

theorem pieces_eq_singleton {mark t : Text} (h : ¬mark <:+: t) : pieces mark t = [t] := by
  induction t with
  | nil => rfl
  | cons c t ih =>
    rw [List.infix_cons_iff, not_or] at h
    rw [pieces, piecesFrom, if_neg fun hs => h.1 (startsWith_iff.1 hs)]
    show (pieces mark t).modifyHead (c :: ·) = _
    rw [ih h.2]
    rfl

/-- Pieces are made of characters of the text. -/
theorem mem_of_mem_pieces {mark : Text} (hne : mark ≠ []) {t p : Text} (h : p ∈ pieces mark t) : ∀ c ∈ p, c ∈ t := by
  induction hn : t.length using Nat.strongRecOn generalizing t with
  | ind n ih =>
    subst hn
    intro c hc
    cases hcut : cut mark t with
    | none =>
      rw [pieces_eq_singleton (cut_eq_none.1 hcut), List.mem_singleton] at h
      exact h ▸ hc
    | some r =>
      have ht := cut_eq_some hcut
      rw [pieces_of_cut hne hcut] at h
      rcases List.mem_cons.1 h with rfl | h
      · rw [ht, List.append_assoc]
        exact List.mem_append_left _ hc
      · have hshort : r.2.length < t.length := by
          have := List.length_pos_iff.2 hne
          rw [ht, List.length_append, List.length_append]
          omega
        rw [ht]
        exact List.mem_append_right _ (ih _ hshort h rfl c hc)

/-! ## Split at a character -/

theorem splitOn_of_mem {a : Char} {t : Text} (h : a ∈ t) : ∃ p rest, t = p ++ a :: rest ∧ a ∉ p ∧ t.splitOn a = p :: rest.splitOn a := by
  obtain ⟨p, rest, rfl, hp⟩ := List.eq_append_cons_of_mem h
  refine ⟨p, rest, rfl, hp, ?_⟩
  rw [List.splitOn_append_cons_self, List.splitOn_eq_singleton hp]
  rfl

/-- A piece has no mark in it. -/
theorem not_mem_of_mem_splitOn {a : Char} {t p : Text} (h : p ∈ t.splitOn a) : a ∉ p := by
  induction hn : t.length using Nat.strongRecOn generalizing t with
  | ind n ih =>
    subst hn
    by_cases ha : a ∈ t
    · obtain ⟨q, rest, ht, hq, hsplit⟩ := splitOn_of_mem ha
      rw [hsplit] at h
      rcases List.mem_cons.1 h with rfl | h
      · exact hq
      · refine ih _ ?_ h rfl
        rw [ht, List.length_append, List.length_cons]
        omega
    · rw [List.splitOn_eq_singleton ha, List.mem_singleton] at h
      exact h ▸ ha

theorem getLast_splitOn_behind (a : Char) (p rest : Text) :
    ((p ++ a :: rest).splitOn a).getLastD [] = (rest.splitOn a).getLastD [] := by
  rw [List.splitOn_append_cons_self, List.getLastD_eq_getLast?, List.getLastD_eq_getLast?,
    List.getLast?_append_of_ne_nil _ (List.splitOn_ne_nil _ _)]

theorem not_mem_getLast_splitOn (a : Char) (t : Text) : a ∉ (t.splitOn a).getLastD [] := by
  refine @not_mem_of_mem_splitOn a t _ ?_
  rw [List.getLastD_eq_getLast?, List.getLast?_eq_some_getLast (List.splitOn_ne_nil _ _)]
  exact List.getLast_mem _

/-- The last piece is the text, or stands behind a mark. -/
theorem getLast_splitOn_cases (a : Char) (t : Text) :
    (t.splitOn a).getLastD [] = t ∧ a ∉ t ∨ ∃ p, t = p ++ a :: (t.splitOn a).getLastD [] := by
  induction hn : t.length using Nat.strongRecOn generalizing t with
  | ind n ih =>
    subst hn
    by_cases ha : a ∈ t
    · obtain ⟨p, rest, rfl, -⟩ := List.eq_append_cons_of_mem ha
      right
      rw [getLast_splitOn_behind]
      have hshort : rest.length < (p ++ a :: rest).length := by
        rw [List.length_append, List.length_cons]
        omega
      rcases ih _ hshort rest rfl with ⟨hlast, -⟩ | ⟨q, hq⟩
      · exact ⟨p, by rw [hlast]⟩
      · refine ⟨p ++ a :: q, ?_⟩
        nth_rewrite 1 [hq]
        rw [List.append_assoc, List.cons_append]
    · left
      rw [List.splitOn_eq_singleton ha]
      exact ⟨rfl, ha⟩

/-- What stands behind the last mark is behind it in a longer text too. -/
theorem getLast_splitOn_append {a : Char} {u : Text} (hu : a ∉ u) (t : Text) :
    ((t ++ u).splitOn a).getLastD [] = (t.splitOn a).getLastD [] ++ u := by
  rcases getLast_splitOn_cases a t with ⟨hlast, ha⟩ | ⟨p, hp⟩
  · rw [hlast, List.splitOn_eq_singleton fun hin => (List.mem_append.1 hin).elim ha hu]
    rfl
  · have hnot := not_mem_getLast_splitOn a t
    nth_rewrite 1 [hp]
    rw [List.append_assoc, List.cons_append, getLast_splitOn_behind,
      List.splitOn_eq_singleton fun hin => (List.mem_append.1 hin).elim hnot hu]
    rfl

end Zenod.Text
