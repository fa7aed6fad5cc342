/-
Text that only grows at the ends of its lines. `Grown` relates a text to one
that has pieces inserted where a line ends; nothing of it is lost or moved
(`Grown.sublist`), and its lines are still there, in order, each at the start
of a line (`Grown.lines`).

`grown_of_edits`: replacing whole lines by themselves with something behind
them, from the last to the first, grows the text.
-/
import Mathlib.Data.List.Forall2
import Zenod.Lib.Text

namespace Zenod.Text

/-- No line is under way in front of this text. -/
def AtLineEnd (t : Text) : Prop := ∀ c ∈ t.head?, c = '\n'

/-- No line is under way behind this text. -/
def AtLineStart (t : Text) : Prop := ∀ c ∈ t.getLast?, c = '\n'

/-- The second text is the first with pieces inserted at the ends of its lines. -/
inductive Grown (Piece : Text → Prop) : Text → Text → Prop
  | nil : Grown Piece [] []
  | char {a b : Text} (c : Char) : Grown Piece a b → Grown Piece (c :: a) (c :: b)
  | insert {a b x : Text} : AtLineEnd a → Piece x → Grown Piece a b → Grown Piece a (x ++ b)

variable {Piece : Text → Prop} {a b : Text}

namespace Grown

theorem refl (a : Text) : Grown Piece a a := by
  induction a with
  | nil => exact nil
  | cons c a ih => exact char c ih

theorem append_left (pre : Text) (h : Grown Piece a b) : Grown Piece (pre ++ a) (pre ++ b) := by
  induction pre with
  | nil => exact h
  | cons c pre ih => exact char c ih

theorem insert_all {xs : List Text} (hend : AtLineEnd a) (hxs : ∀ x ∈ xs, Piece x) (h : Grown Piece a b) :
    Grown Piece a (xs.flatten ++ b) := by
  induction xs with
  | nil => exact h
  | cons x xs ih =>
    rw [List.flatten_cons, List.append_assoc]
    exact insert hend (hxs x List.mem_cons_self) (ih fun y hy => hxs y (List.mem_cons_of_mem _ hy))

theorem append_piece {x : Text} (hx : Piece x) (h : Grown Piece a b) : Grown Piece a (b ++ x) := by
  induction h with
  | nil => simpa using insert (a := []) (b := []) (fun c hc => by cases hc) hx nil
  | char c _ ih => exact char c ih
  | insert hend hy _ ih =>
    rw [List.append_assoc]
    exact insert hend hy ih

theorem append_all {xs : List Text} (hxs : ∀ x ∈ xs, Piece x) (h : Grown Piece a b) :
    Grown Piece a (b ++ xs.flatten) := by
  induction xs generalizing b with
  | nil => simpa using h
  | cons x xs ih =>
    rw [List.flatten_cons, ← List.append_assoc]
    exact ih (fun y hy => hxs y (List.mem_cons_of_mem _ hy)) (h.append_piece (hxs x List.mem_cons_self))

/-- Pieces put together from smaller ones. -/
theorem refine {Part : Text → Prop} (hparts : ∀ x, Piece x → ∃ xs : List Text, x = xs.flatten ∧ ∀ y ∈ xs, Part y)
    (h : Grown Piece a b) : Grown Part a b := by
  induction h with
  | nil => exact nil
  | char c _ ih => exact char c ih
  | insert hend hx _ ih =>
    obtain ⟨xs, rfl, hxs⟩ := hparts _ hx
    exact insert_all hend hxs ih

/-- **Nothing is deleted or reordered.** -/
theorem sublist (h : Grown Piece a b) : a.Sublist b := by
  induction h with
  | nil => exact List.Sublist.refl _
  | char c _ ih => exact ih.cons_cons c
  | insert _ _ _ ih => exact ih.trans (List.sublist_append_right _ _)

end Grown

/-! ## Lines of a grown text -/

theorem lines_cons (c : Char) (t : Text) :
    lines (c :: t) = if c = '\n' then [] :: lines t else (lines t).modifyHead (c :: ·) := by
  simp only [lines, List.splitOn_cons_eq_if_modifyHead, beq_iff_eq]

/-- Text before another changes its first line only, and may bring lines of its own. -/
theorem lines_append_eq (x t : Text) : ∃ pre l, lines (x ++ t) = pre ++ (lines t).modifyHead (l ++ ·) := by
  induction x with
  | nil =>
    refine ⟨[], [], ?_⟩
    show lines t = (lines t).modifyHead ([] ++ ·)
    cases lines t <;> rfl
  | cons c x ih =>
    obtain ⟨pre, l, ih⟩ := ih
    rw [List.cons_append, lines_cons, ih]
    by_cases hc : c = '\n'
    · exact ⟨[] :: pre, l, by rw [if_pos hc]; rfl⟩
    · rw [if_neg hc]
      cases pre with
      | nil =>
        refine ⟨[], c :: l, ?_⟩
        cases lines t <;> rfl
      | cons m pre => exact ⟨(c :: m) :: pre, l, rfl⟩

theorem lines_of_atLineEnd (h : AtLineEnd a) : ∃ ls, lines a = [] :: ls := by
  cases a with
  | nil => exact ⟨[], rfl⟩
  | cons c t =>
    obtain rfl : c = '\n' := h c rfl
    exact ⟨lines t, by rw [lines_cons, if_pos rfl]⟩

theorem sublistForall₂_append_left {α : Type} {R : α → α → Prop} {as bs : List α} (pre : List α)
    (h : List.SublistForall₂ R as bs) : List.SublistForall₂ R as (pre ++ bs) := by
  induction pre with
  | nil => exact h
  | cons c pre ih => exact ih.cons_right

/-- The first line is still the start of the first line, and the rest follow. -/
theorem Grown.lines_cons (h : Grown Piece a b) : ∃ l ls m ms, lines a = l :: ls ∧ lines b = m :: ms ∧ l <+: m ∧
    List.SublistForall₂ (· <+: ·) ls ms := by
  induction h with
  | nil => exact ⟨[], [], [], [], rfl, rfl, List.prefix_rfl, List.SublistForall₂.nil⟩
  | @char a b c _ ih =>
    obtain ⟨l, ls, m, ms, ha, hb, hlm, hrest⟩ := ih
    rw [Text.lines_cons, Text.lines_cons, ha, hb]
    by_cases hc : c = '\n'
    · refine ⟨[], l :: ls, [], m :: ms, ?_, ?_, List.prefix_rfl, List.SublistForall₂.cons hlm hrest⟩
      · rw [if_pos hc]
      · rw [if_pos hc]
    · refine ⟨c :: l, ls, c :: m, ms, ?_, ?_, ?_, hrest⟩
      · rw [if_neg hc]
        rfl
      · rw [if_neg hc]
        rfl
      · exact List.cons_prefix_cons.2 ⟨rfl, hlm⟩
  | @insert a b x hend _ _ ih =>
    obtain ⟨l, ls, m, ms, ha, hb, hlm, hrest⟩ := ih
    obtain ⟨ls', hls'⟩ := lines_of_atLineEnd hend
    obtain ⟨rfl, rfl⟩ : l = [] ∧ ls = ls' := by
      rw [ha] at hls'
      exact List.cons_eq_cons.1 hls'
    obtain ⟨pre, k, hlines⟩ := lines_append_eq x b
    rw [hb, List.modifyHead_cons] at hlines
    cases pre with
    | nil => exact ⟨[], ls, k ++ m, ms, ha, hlines, List.nil_prefix, hrest⟩
    | cons n pre =>
      refine ⟨[], ls, n, pre ++ (k ++ m) :: ms, ha, hlines, List.nil_prefix, ?_⟩
      exact sublistForall₂_append_left pre hrest.cons_right

/-- **Every line is still there**, in order, at the start of a line. -/
theorem Grown.lines (h : Grown Piece a b) : List.SublistForall₂ (· <+: ·) (lines a) (lines b) := by
  obtain ⟨l, ls, m, ms, ha, hb, hlm, hrest⟩ := h.lines_cons
  rw [ha, hb]
  exact List.SublistForall₂.cons hlm hrest

/-! ## Edits of whole lines -/

structure Edit where
  start : Nat
  stop : Nat
  text : Text
deriving DecidableEq

/-- `body.slice(0, start) + text + body.slice(stop)`. -/
def applyEdit (body : Text) (edit : Edit) : Text := takeUnits edit.start body ++ edit.text ++ dropUnits edit.stop body

/-- A whole line of a text, at its offset. -/
def LineAt (body line : Text) (start : Nat) : Prop :=
  ∃ p q, body = p ++ line ++ q ∧ utf16Length p = start ∧ AtLineStart p ∧ AtLineEnd q ∧ SingleLine line

/-- An edit that leaves a line as it is and puts pieces behind it. -/
def Edit.Grows (Piece : Text → Prop) (body : Text) (edit : Edit) : Prop :=
  ∃ (line : Text) (pieces : List Text), LineAt body line edit.start ∧ edit.stop = edit.start + utf16Length line ∧
    edit.text = line ++ pieces.flatten ∧ ∀ x ∈ pieces, Piece x

/-- The texts agree up to an offset and behind it the second has grown. -/
def GrownFrom (Piece : Text → Prop) (body now : Text) (offset : Nat) : Prop :=
  ∃ pre suf suf', body = pre ++ suf ∧ now = pre ++ suf' ∧ utf16Length pre = offset ∧ Grown Piece suf suf'

theorem GrownFrom.grown {body now : Text} {offset : Nat} (h : GrownFrom Piece body now offset) :
    Grown Piece body now := by
  obtain ⟨pre, suf, suf', rfl, rfl, -, hgrown⟩ := h
  exact hgrown.append_left pre

theorem GrownFrom.applyEdit {body now : Text} {offset : Nat} {edit : Edit} (h : GrownFrom Piece body now offset)
    (hedit : edit.Grows Piece body) (hle : edit.stop ≤ offset) :
    GrownFrom Piece body (applyEdit now edit) edit.stop := by
  obtain ⟨pre, suf, suf', hbody, rfl, rfl, hgrown⟩ := h
  obtain ⟨line, pieces, ⟨p, q, hline, hstart, -, hend, -⟩, hstop, htext, hpieces⟩ := hedit
  have hlen : utf16Length (p ++ line) = edit.stop := by rw [utf16Length_append, hstart, hstop]
  obtain ⟨m, rfl, rfl⟩ := append_split (hline.symm.trans hbody) (hlen ▸ hle)
  refine ⟨p ++ line, m ++ suf, pieces.flatten ++ (m ++ suf'), hline, ?_, hlen, ?_⟩
  · have htake : takeUnits edit.start (p ++ line ++ m ++ suf') = p := by
      rw [← hstart, List.append_assoc, List.append_assoc, takeUnits_length]
    have hdrop : dropUnits edit.stop (p ++ line ++ m ++ suf') = m ++ suf' := by
      rw [← hlen, List.append_assoc (p ++ line), dropUnits_length]
    rw [Text.applyEdit, htake, hdrop, htext]
    simp only [List.append_assoc]
  · exact (hgrown.append_left m).insert_all hend hpieces

theorem takeWhile_line {line q : Text} (hsingle : SingleLine line) (hend : AtLineEnd q) :
    (line ++ q).takeWhile (· ≠ '\n') = line := by
  have hq : q.takeWhile (· ≠ '\n') = [] := by
    cases q with
    | nil => rfl
    | cons c q =>
      obtain rfl : c = '\n' := hend c rfl
      rfl
  rw [List.takeWhile_append_of_pos, hq, List.append_nil]
  intro c hc
  have hne : c ≠ '\n' := fun heq => hsingle (heq ▸ hc)
  simpa using hne

/-- A line that does not start behind another does not end behind it either. -/
theorem LineAt.stop_le {body l m : Text} {i j : Nat} (hl : LineAt body l i) (hm : LineAt body m j) (hle : i ≤ j) :
    i + utf16Length l ≤ j + utf16Length m := by
  obtain ⟨p, q, hbody, rfl, -, hend, hsingle⟩ := hl
  obtain ⟨p', q', hbody', rfl, hstart', hend', hsingle'⟩ := hm
  rw [hbody, List.append_assoc, List.append_assoc] at hbody'
  obtain ⟨n, rfl, hrest⟩ := append_split hbody' hle
  cases hn : n.getLast? with
  | none =>
    obtain rfl := List.getLast?_eq_none_iff.1 hn
    have hline : l = m := by
      rw [← takeWhile_line hsingle hend, ← takeWhile_line hsingle' hend', hrest]
      rfl
    rw [hline, List.append_nil]
  | some c =>
    -- The newline in front of the second line is behind the first one.
    obtain rfl : c = '\n' := by
      refine hstart' c ?_
      rw [List.getLast?_append_of_ne_nil _ (by rintro rfl; cases hn)]
      exact hn
    obtain ⟨n', rfl⟩ := List.getLast?_eq_some_iff.1 hn
    have hcut : utf16Length l ≤ utf16Length (n' ++ ['\n']) := by
      rcases Nat.le_total (utf16Length l) (utf16Length (n' ++ ['\n'])) with h | h
      · exact h
      · obtain ⟨k, hk, -⟩ := append_split hrest.symm h
        exact absurd (by rw [hk]; simp) hsingle
    rw [utf16Length_append]
    omega

/-- **Edits from the last to the first**, each growing a line of the text as it was, grow the text. -/
theorem grown_of_edits {body : Text} {edits : List Edit} (hsorted : edits.Pairwise fun e e' => e'.start ≤ e.start)
    (hedits : ∀ e ∈ edits, e.Grows Piece body) : Grown Piece body (edits.foldl applyEdit body) := by
  have hstep : ∀ (now : Text) (offset : Nat), GrownFrom Piece body now offset → (∀ e ∈ edits, e.stop ≤ offset) →
      Grown Piece body (edits.foldl applyEdit now) := by
    induction edits with
    | nil => exact fun now offset h _ => h.grown
    | cons e edits ih =>
      intro now offset h hoffset
      rw [List.pairwise_cons] at hsorted
      have he := hedits e List.mem_cons_self
      refine ih hsorted.2 (fun e' he' => hedits e' (List.mem_cons_of_mem _ he')) _ e.stop
        (h.applyEdit he (hoffset e List.mem_cons_self)) fun e' he' => ?_
      obtain ⟨line, -, hline, hstop, -⟩ := he
      obtain ⟨line', -, hline', hstop', -⟩ := hedits e' (List.mem_cons_of_mem _ he')
      rw [hstop, hstop']
      exact hline'.stop_le hline (hsorted.1 e' he')
  refine hstep body (utf16Length body) ⟨body, [], [], ?_, ?_, rfl, Grown.nil⟩ fun e he => ?_
  · rw [List.append_nil]
  · rw [List.append_nil]
  · obtain ⟨line, -, ⟨p, q, hbody, hp, -⟩, hstop, -⟩ := hedits e he
    rw [hbody, utf16Length_append, utf16Length_append]
    omega

end Zenod.Text
