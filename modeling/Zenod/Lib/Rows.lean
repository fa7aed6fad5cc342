/-
A text in rows, as `^` and `$` of a pattern with the flag `m` see it: four
characters end a row, not only the newline.

`printed_append`: what a text shows of its rows is told by its parts.
`infix_printed`: a text without white space that stands in another stands in
one of the rows that this shows.
-/
import Zenod.Lib.Text

namespace Zenod.Text

/-- The rows between the line terminators. -/
def rows (t : Text) : List Text := t.splitOnP isLineTerminator

/-- The rows that show something, without the white space at their ends. -/
def shown (rs : List Text) : List Text := (rs.map trimEnd).filter (· ≠ [])

def printed (t : Text) : List Text := shown (rows t)

/-- A text of one row. -/
def Single (t : Text) : Prop := ∀ c ∈ t, isLineTerminator c = false

instance (t : Text) : Decidable (Single t) := List.decidableBAll (fun c => isLineTerminator c = false) t

variable {s t x y m : Text} {c : Char}

theorem isSpace_of_isLineTerminator (h : isLineTerminator c = true) : Js.isSpace c = true := by
  simp only [isLineTerminator, Bool.or_eq_true, beq_iff_eq] at h
  simp only [Js.isSpace, Bool.or_eq_true, Bool.and_eq_true, decide_eq_true_eq, beq_iff_eq]
  omega

/-! ## Rows -/

theorem rows_of_single (h : Single t) : rows t = [t] := List.splitOnP_eq_singleton h

theorem rows_append (s t : Text) (hc : isLineTerminator c = true) : rows (s ++ c :: t) = rows s ++ rows t :=
  List.splitOnP_append_cons s t hc

theorem rows_cons (hc : isLineTerminator c = true) (t : Text) : rows (c :: t) = [] :: rows t := rows_append [] t hc

/-- What holds of texts of one row, and of a text with a row put before it, holds of all. -/
theorem rows_induction {P : Text → Prop} (single : ∀ t, Single t → P t)
    (more : ∀ s c t, Single s → isLineTerminator c = true → P t → P (s ++ c :: t)) (t : Text) : P t := by
  induction hn : t.length using Nat.strongRecOn generalizing t with
  | ind n ih =>
    have hsplit := List.takeWhile_append_dropWhile (p := fun c => !isLineTerminator c) (l := t)
    have hfirst : Single (t.takeWhile fun c => !isLineTerminator c) := by
      intro c hc
      simpa using List.mem_takeWhile_imp hc
    cases hrest : t.dropWhile (fun c => !isLineTerminator c) with
    | nil =>
      rw [hrest, List.append_nil] at hsplit
      rw [← hsplit]
      exact single _ hfirst
    | cons c rest =>
      have hc : isLineTerminator c = true := by
        have hne : t.dropWhile (fun c => !isLineTerminator c) ≠ [] := by
          rw [hrest]
          exact List.cons_ne_nil c rest
        have := List.head_dropWhile_not (fun c => !isLineTerminator c) hne
        simpa [hrest] using this
      rw [hrest] at hsplit
      rw [← hsplit]
      refine more _ c rest hfirst hc (ih rest.length ?_ rest rfl)
      rw [← hn, ← hsplit, List.length_append, List.length_cons]
      omega

/-- A row of a text is some part of it. -/
theorem infix_of_mem_rows {r : Text} (h : r ∈ rows t) : r <:+: t := by
  induction t using rows_induction with
  | single t ht =>
    rw [rows_of_single ht, List.mem_singleton] at h
    exact h ▸ List.infix_rfl
  | more s c t hs hc ih =>
    rw [rows_append s t hc, rows_of_single hs] at h
    rcases List.mem_append.1 h with h | h
    · rw [List.mem_singleton.1 h]
      exact (List.prefix_append s (c :: t)).isInfix
    · exact (ih h).trans ((List.suffix_cons c t).trans (List.suffix_append s (c :: t))).isInfix

/-- A row between two texts that end and start one can be put in place of another. -/
theorem rows_around {before behind : Text} (hbefore : before = [] ∨ ∃ s c, isLineTerminator c = true ∧ before = s ++ [c])
    (hbehind : behind = [] ∨ ∃ c s, isLineTerminator c = true ∧ behind = c :: s) :
    ∃ front back, ∀ r, Single r → rows (before ++ r ++ behind) = front ++ r :: back := by
  obtain ⟨front, hfront⟩ : ∃ front, ∀ t, rows (before ++ t) = front ++ rows t := by
    rcases hbefore with rfl | ⟨s, c, hc, rfl⟩
    · exact ⟨[], fun t => rfl⟩
    · exact ⟨rows s, fun t => by rw [List.append_assoc, List.singleton_append, rows_append s t hc]⟩
  rcases hbehind with rfl | ⟨c, s, hc, rfl⟩
  · exact ⟨front, [], fun r hr => by rw [List.append_nil, hfront, rows_of_single hr]⟩
  · refine ⟨front, rows s, fun r hr => ?_⟩
    rw [List.append_assoc, hfront, rows_append r s hc, rows_of_single hr]
    rfl

theorem Single.append (hs : Single s) (ht : Single t) : Single (s ++ t) :=
  fun c hc => (List.mem_append.1 hc).elim (hs c) (ht c)

/-! ## White space at the end -/

theorem trimEnd_append_trimEnd (t : Text) : ∃ w, t = trimEnd t ++ w ∧ ∀ c ∈ w, Js.isSpace c = true := by
  refine ⟨(t.reverse.takeWhile Js.isSpace).reverse, ?_, fun c hc => List.mem_takeWhile_imp (List.mem_reverse.1 hc)⟩
  have hsplit := List.takeWhile_append_dropWhile (p := Js.isSpace) (l := t.reverse)
  rw [trimEnd, List.rdropWhile, ← List.reverse_append, hsplit, List.reverse_reverse]

theorem trimEnd_append (s t : Text) : trimEnd (s ++ t) = if trimEnd t = [] then trimEnd s else s ++ trimEnd t := by
  simp only [trimEnd, List.rdropWhile, List.reverse_append, List.dropWhile_append, List.isEmpty_iff,
    List.reverse_eq_nil_iff]
  split
  next => rfl
  next => rw [List.reverse_append, List.reverse_reverse]

theorem prefix_trimEnd (t : Text) : trimEnd t <+: t := List.rdropWhile_prefix _ _

theorem trimEnd_of_space (h : ∀ c ∈ t, Js.isSpace c = true) : trimEnd t = [] := by
  rw [trimEnd, List.rdropWhile_eq_nil_iff]
  exact h

theorem Single.trimEnd (h : Single t) : Single (Text.trimEnd t) := fun c hc => h c ((prefix_trimEnd t).subset hc)

/-- The rows of a text without the white space at its end are rows of the text, or such a one trimmed. -/
theorem mem_rows_trimEnd {r : Text} (h : r ∈ rows (trimEnd t)) : ∃ q ∈ rows t, r = q ∨ r = trimEnd q := by
  induction t using rows_induction with
  | single t ht =>
    rw [rows_of_single ht.trimEnd, List.mem_singleton] at h
    exact ⟨t, by rw [rows_of_single ht]; exact List.mem_singleton_self t, .inr h⟩
  | more s c t hs hc ih =>
    have hrows : rows (s ++ c :: t) = s :: rows t := by
      rw [rows_append s t hc, rows_of_single hs]
      rfl
    by_cases hblank : trimEnd t = []
    · have hdrop : trimEnd (s ++ c :: t) = trimEnd s := by
        rw [← List.singleton_append, ← List.append_assoc, trimEnd_append, if_pos hblank, trimEnd_append, if_pos]
        exact trimEnd_of_space fun d hd => by rw [List.mem_singleton.1 hd]; exact isSpace_of_isLineTerminator hc
      rw [hdrop, rows_of_single hs.trimEnd, List.mem_singleton] at h
      exact ⟨s, by rw [hrows]; exact List.mem_cons_self, .inr h⟩
    · have hkeep : trimEnd (s ++ c :: t) = s ++ c :: trimEnd t := by
        rw [← List.singleton_append, ← List.append_assoc, trimEnd_append, if_neg hblank, List.append_assoc]
        rfl
      rw [hkeep, rows_append s _ hc, rows_of_single hs] at h
      rcases List.mem_append.1 h with h | h
      · exact ⟨s, by rw [hrows]; exact List.mem_cons_self, .inl (List.mem_singleton.1 h)⟩
      · obtain ⟨q, hq, hrq⟩ := ih h
        exact ⟨q, by rw [hrows]; exact List.mem_cons_of_mem s hq, hrq⟩

/-! ## Rows that show something -/

theorem shown_append (rs qs : List Text) : shown (rs ++ qs) = shown rs ++ shown qs := by
  rw [shown, List.map_append, List.filter_append]
  rfl

theorem shown_cons (r : Text) (rs : List Text) : shown (r :: rs) = shown [r] ++ shown rs := shown_append [r] rs

theorem shown_of_blank {rs : List Text} (h : ∀ r ∈ rs, r = []) : shown rs = [] := by
  refine List.filter_eq_nil_iff.2 fun r hr => ?_
  obtain ⟨q, hq, rfl⟩ := List.mem_map.1 hr
  rw [h q hq]
  decide

theorem shown_single {r : Text} (hne : r ≠ []) (htrim : trimEnd r = r) : shown [r] = [r] := by
  simp [shown, htrim, hne]

theorem printed_of_single (h : Single t) : printed t = [trimEnd t].filter (· ≠ []) := by
  rw [printed, rows_of_single h]
  rfl

@[simp] theorem printed_nil : printed [] = [] := rfl

theorem printed_append_cons (s t : Text) (hc : isLineTerminator c = true) :
    printed (s ++ c :: t) = printed s ++ printed t := by
  rw [printed, rows_append s t hc, shown_append]
  rfl

theorem printed_append_space {w : Text} (hw : ∀ c ∈ w, Js.isSpace c = true) : printed (t ++ w) = printed t := by
  induction w using rows_induction generalizing t with
  | single w hrow =>
    induction t using rows_induction with
    | single t ht =>
      have hboth : Single (t ++ w) := fun c hc => (List.mem_append.1 hc).elim (ht c) (hrow c)
      rw [printed_of_single hboth, printed_of_single ht, trimEnd_append, if_pos (trimEnd_of_space hw)]
    | more s c t _ hc ih =>
      rw [List.append_assoc, List.cons_append, printed_append_cons _ _ hc, printed_append_cons _ _ hc, ih]
  | more v c w hv hc ih =>
    have hv' : ∀ d ∈ v, Js.isSpace d = true := fun d hd => hw d (List.mem_append_left _ hd)
    have hblank := ih (t := []) fun d hd => hw d (List.mem_append_right _ (List.mem_cons_of_mem _ hd))
    rw [← List.append_assoc, printed_append_cons _ _ hc, show printed w = [] from hblank, List.append_nil]
    clear ih hblank hw
    induction t using rows_induction with
    | single t ht =>
      have hboth : Single (t ++ v) := fun d hd => (List.mem_append.1 hd).elim (ht d) (hv d)
      rw [printed_of_single hboth, printed_of_single ht, trimEnd_append, if_pos (trimEnd_of_space hv')]
    | more s e t _ he ih =>
      rw [List.append_assoc, List.cons_append, printed_append_cons _ _ he, printed_append_cons _ _ he, ih]

theorem printed_trimEnd (t : Text) : printed (trimEnd t) = printed t := by
  obtain ⟨w, ht, hw⟩ := trimEnd_append_trimEnd t
  conv_rhs => rw [ht]
  exact (printed_append_space hw).symm

/-- A row begins where one text goes over into the other. -/
def Meet (x y : Text) : Prop := x = [] ∨ y = [] ∨ (∃ s c, isLineTerminator c = true ∧ x = s ++ [c]) ∨
  ∃ c s, isLineTerminator c = true ∧ y = c :: s

theorem printed_append (h : Meet x y) : printed (x ++ y) = printed x ++ printed y := by
  rcases h with rfl | rfl | ⟨s, c, hc, rfl⟩ | ⟨c, s, hc, rfl⟩
  · rfl
  · rw [List.append_nil, printed_nil, List.append_nil]
  · rw [List.append_assoc, List.singleton_append, printed_append_cons _ _ hc, printed_append_cons _ _ hc, printed_nil,
      List.append_nil]
  · rw [printed_append_cons _ _ hc, ← List.nil_append (c :: s), printed_append_cons _ _ hc]
    rfl

/-! ## Texts without white space -/

/-- No white space, and not empty. -/
def Solid (t : Text) : Prop := t ≠ [] ∧ ∀ c ∈ t, Js.isSpace c = false

theorem Solid.infix_append_cons (hm : Solid m) (hc : Js.isSpace c = true) (h : m <:+: x ++ c :: y) :
    m <:+: x ∨ m <:+: y := by
  obtain ⟨a, b, hab⟩ := h
  rcases List.append_eq_append_iff.1 hab with ⟨d, hx, hd⟩ | ⟨d, ham, hd⟩
  · exact .inl ⟨a, d, hx.symm⟩
  · -- The space stands behind `x`, so it is no part of what stands in both.
    rcases List.append_eq_append_iff.1 ham with ⟨e, hx, he⟩ | ⟨e, ha, he⟩
    · cases d with
      | nil =>
        rw [List.append_nil] at he
        exact .inl ⟨a, [], by rw [List.append_nil, he, ← hx]⟩
      | cons d₀ d =>
        rw [List.cons_append, List.cons.injEq] at hd
        have hmem : c ∈ m := by
          rw [he, hd.1]
          exact List.mem_append_right _ List.mem_cons_self
        exact absurd hc (by rw [hm.2 c hmem]; exact Bool.false_ne_true)
    · cases e with
      | nil =>
        rw [List.nil_append] at he
        rw [he] at hd
        obtain ⟨m₀, m', rfl⟩ := List.exists_cons_of_ne_nil hm.1
        rw [List.cons_append, List.cons.injEq] at hd
        exact absurd hc (by rw [hd.1, hm.2 m₀ List.mem_cons_self]; exact Bool.false_ne_true)
      | cons e₀ e =>
        rw [he, List.cons_append, List.cons_append, List.cons.injEq] at hd
        exact .inr ⟨e, b, hd.2.symm⟩

theorem Solid.infix_trimEnd (hm : Solid m) (h : m <:+: t) : m <:+: trimEnd t := by
  obtain ⟨w, ht, hw⟩ := trimEnd_append_trimEnd t
  generalize trimEnd t = u at ht ⊢
  subst ht
  induction w with
  | nil => rwa [List.append_nil] at h
  | cons c w ih =>
    rcases hm.infix_append_cons (hw c List.mem_cons_self) h with h | h
    · exact h
    · obtain ⟨m₀, hm₀⟩ := List.exists_mem_of_ne_nil m hm.1
      have hspace := hw m₀ (List.mem_cons_of_mem c (h.subset hm₀))
      exact absurd hspace (by rw [hm.2 m₀ hm₀]; exact Bool.false_ne_true)

/-- **A text without white space stands in one of the rows**, if it stands in the text. -/
theorem infix_printed (hm : Solid m) : m <:+: t ↔ ∃ r ∈ printed t, m <:+: r := by
  induction t using rows_induction with
  | single t ht =>
    rw [printed_of_single ht]
    constructor
    · intro h
      have htrim := hm.infix_trimEnd h
      refine ⟨trimEnd t, List.mem_filter.2 ⟨List.mem_singleton_self _, ?_⟩, htrim⟩
      rw [decide_eq_true_eq]
      intro hnil
      rw [hnil, List.infix_nil] at htrim
      exact hm.1 htrim
    · rintro ⟨r, hr, h⟩
      rw [List.mem_singleton.1 (List.mem_filter.1 hr).1] at h
      exact h.trans (prefix_trimEnd t).isInfix
  | more s c t hs hc ih =>
    rw [printed_append_cons s t hc]
    constructor
    · intro h
      rcases hm.infix_append_cons (isSpace_of_isLineTerminator hc) h with h | h
      · refine ⟨trimEnd s, List.mem_append_left _ ?_, hm.infix_trimEnd h⟩
        rw [printed_of_single hs]
        refine List.mem_filter.2 ⟨List.mem_singleton_self _, ?_⟩
        rw [decide_eq_true_eq]
        intro hnil
        have htrim := hm.infix_trimEnd h
        rw [hnil, List.infix_nil] at htrim
        exact hm.1 htrim
      · obtain ⟨r, hr, h⟩ := ih.1 h
        exact ⟨r, List.mem_append_right _ hr, h⟩
    · rintro ⟨r, hr, h⟩
      rcases List.mem_append.1 hr with hr | hr
      · rw [printed_of_single hs] at hr
        rw [List.mem_singleton.1 (List.mem_filter.1 hr).1] at h
        exact h.trans ((prefix_trimEnd s).trans (List.prefix_append _ _)).isInfix
      · exact (ih.2 ⟨r, hr, h⟩).trans ((List.suffix_cons c t).trans (List.suffix_append _ _)).isInfix

end Zenod.Text
