/-
Tables of a relational store: a list of rows in insertion order, no two of
which clash on a UNIQUE constraint. The constraint is a field of the table,
so a table that breaks it cannot be built: an insert checks it and an update
must leave the constrained columns alone.

A column sum is `Table.sumBy`: `SELECT SUM(x) WHERE p` is
`sumBy fun r => if p r then x r else 0`.
-/
import Mathlib.Data.List.Basic
import Mathlib.Algebra.Ring.Int.Defs
import Mathlib.Algebra.BigOperators.Group.List.Basic
import Mathlib.Algebra.Order.BigOperators.Group.List

namespace Zenod

universe u

/-- When two rows may not stand in one table: they agree on a UNIQUE key. -/
class Keyed (Row : Type u) where
  clash : Row → Row → Bool
  clash_symm : ∀ a b, clash a b = clash b a

open Keyed

/-- Rows in insertion order, no two of them clashing. -/
structure Table (Row : Type u) [Keyed Row] where
  rows : List Row
  unique : rows.Pairwise fun a b => clash a b = false

namespace Table

variable {Row : Type u} [Keyed Row]

@[ext] theorem ext {t s : Table Row} (h : t.rows = s.rows) : t = s := by
  cases t; cases s; cases h; rfl

instance [DecidableEq Row] : DecidableEq (Table Row) := fun t s =>
  decidable_of_iff (t.rows = s.rows) ⟨ext, fun h => h ▸ rfl⟩

/-- The table with no rows. -/
def empty : Table Row := ⟨[], .nil⟩

@[simp] theorem rows_empty : (empty : Table Row).rows = [] := rfl

/-- INSERT: refused when the row clashes with one already there. -/
def insert? (t : Table Row) (row : Row) : Option (Table Row) :=
  if h : ∀ r ∈ t.rows, clash r row = false then
    some ⟨t.rows ++ [row], List.pairwise_append.2 ⟨t.unique, List.pairwise_singleton _ _, by simpa using h⟩⟩
  else none

/-- UPDATE ... WHERE `p`, by a function that leaves the constrained columns alone. -/
def update (t : Table Row) (p : Row → Bool) (f : Row → Row) (hf : ∀ r s, clash (f r) s = clash r s) : Table Row where
  rows := t.rows.map fun r => if p r then f r else r
  unique := by
    refine List.pairwise_map.2 (t.unique.imp fun {a b} h => ?_)
    have keep : ∀ r s, clash (if p r then f r else r) s = clash r s := fun r s => by split <;> simp [hf]
    rw [keep, clash_symm, keep, clash_symm]
    exact h

/-- UPDATE ... WHERE `p`, by a function after which the rows it touches clash with no row they did not clash with. -/
def revise (t : Table Row) (p : Row → Bool) (f : Row → Row)
    (hf : ∀ r s, p r = true → clash (f r) s = true → clash r s = true) : Table Row where
  rows := t.rows.map fun r => if p r then f r else r
  unique := by
    have keep : ∀ r s, clash r s = false → clash (if p r then f r else r) s = false := by
      intro r s h
      split
      · next hp =>
        by_contra hne
        simp [hf r s hp (by simpa using hne)] at h
      · exact h
    refine List.pairwise_map.2 (t.unique.imp fun {a b} h => ?_)
    refine keep a _ ?_
    rw [clash_symm] at h ⊢
    exact keep b a h

/-- DELETE ... WHERE `p`. -/
def delete (t : Table Row) (p : Row → Bool) : Table Row := ⟨t.rows.filter fun r => !p r, t.unique.filter _⟩

/-- The number of rows a statement with this WHERE clause touches. -/
def count (t : Table Row) (p : Row → Bool) : Nat := t.rows.countP p

/-- The sum of a column over the table. -/
def sumBy (t : Table Row) (c : Row → Int) : Int := (t.rows.map c).sum

/-! ## Insert -/

theorem insert?_eq_some {t t' : Table Row} {row : Row} :
    t.insert? row = some t' ↔ (∀ r ∈ t.rows, clash r row = false) ∧ t'.rows = t.rows ++ [row] := by
  unfold insert?
  split
  · next h =>
    simp only [Option.some.injEq]
    exact ⟨fun he => ⟨h, he ▸ rfl⟩, fun he => ext he.2.symm⟩
  · next h => simp [h]

theorem insert?_isSome {t : Table Row} {row : Row} (h : ∀ r ∈ t.rows, clash r row = false) :
    ∃ t', t.insert? row = some t' ∧ t'.rows = t.rows ++ [row] := by
  simp only [insert?]
  rw [dif_pos h]
  exact ⟨_, rfl, rfl⟩

/-! ## Update -/

@[simp] theorem rows_update (t : Table Row) (p : Row → Bool) (f : Row → Row) (hf) :
    (t.update p f hf).rows = t.rows.map fun r => if p r then f r else r := rfl

/-- An update whose WHERE clause matches no row changes nothing. -/
theorem update_eq_self {t : Table Row} {p : Row → Bool} {f : Row → Row} {hf}
    (h : ∀ r ∈ t.rows, p r = false) : t.update p f hf = t := by
  apply ext
  simp only [rows_update]
  conv_rhs => rw [← List.map_id t.rows]
  exact List.map_congr_left fun r hr => by simp [h r hr]

/-! ## Rows found by a unique key -/

/-- `q` picks rows that clash with one another, so at most one of a table. -/
def Identifies (q : Row → Bool) : Prop :=
  ∀ a b : Row, q a = true → q b = true → clash a b = true

theorem find?_of_mem {t : Table Row} {q : Row → Bool} (hq : Identifies q) {r : Row}
    (hr : r ∈ t.rows) (hqr : q r = true) : t.rows.find? q = some r := by
  obtain ⟨rows, hu⟩ := t
  simp only at hr ⊢
  induction rows with
  | nil => simp at hr
  | cons a l ih =>
    rw [List.pairwise_cons] at hu
    rw [List.find?_cons]
    rcases List.mem_cons.1 hr with rfl | hr
    · simp [hqr]
    · have ha : q a = false := by
        by_contra hne
        have := hq a r (by simpa using hne) hqr
        simp [hu.1 r hr] at this
      simp only [ha]
      exact ih hu.2 hr

theorem eq_of_identifies {t : Table Row} {q : Row → Bool} (hq : Identifies q) {r s : Row}
    (hr : r ∈ t.rows) (hs : s ∈ t.rows) (hqr : q r = true) (hqs : q s = true) : r = s := by
  have h₁ := find?_of_mem hq hr hqr
  have h₂ := find?_of_mem hq hs hqs
  rw [h₁] at h₂
  exact Option.some.inj h₂

/-- A statement that addresses a row by a unique key touches that row alone. -/
theorem count_of_mem {t : Table Row} {q p : Row → Bool} (hq : Identifies q) {r : Row} (hr : r ∈ t.rows)
    (hqr : q r = true) (hp : p r = true) (hpq : ∀ s, p s = true → q s = true) : t.count p = 1 := by
  obtain ⟨rows, hu⟩ := t
  simp only [count] at hr ⊢
  induction rows with
  | nil => simp at hr
  | cons a l ih =>
    rw [List.pairwise_cons] at hu
    rcases List.mem_cons.1 hr with rfl | hr
    · have : l.countP p = 0 := by
        rw [List.countP_eq_zero]
        intro s hs hps
        have := hq r s hqr (hpq s hps)
        simp [hu.1 s hs] at this
      simp [hp, this]
    · have : p a = false := by
        by_contra hne
        have := hq a r (hpq a (by simpa using hne)) hqr
        simp [hu.1 r hr] at this
      simp [this, ih hu.2 hr]

theorem count_eq_zero {t : Table Row} {p : Row → Bool} (h : ∀ r ∈ t.rows, p r = false) : t.count p = 0 := by
  simp only [count, List.countP_eq_zero]
  intro r hr
  simp [h r hr]

/-- Looking a row up by a key the update leaves alone finds the updated row. -/
theorem find?_update {t : Table Row} {p q : Row → Bool} {f : Row → Row} (hf) (hq : ∀ r, q (f r) = q r) :
    (t.update p f hf).rows.find? q = (t.rows.find? q).map fun r => if p r then f r else r := by
  rw [rows_update, List.find?_map]
  congr 1
  refine congrArg (fun g => t.rows.find? g) (funext fun r => ?_)
  simp only [Function.comp]
  split <;> simp [hq]

theorem find?_revise {t : Table Row} {p q : Row → Bool} {f : Row → Row} (hf) (hq : ∀ r, q (f r) = q r) :
    (t.revise p f hf).rows.find? q = (t.rows.find? q).map fun r => if p r then f r else r := by
  show (t.rows.map fun r => if p r then f r else r).find? q = _
  rw [List.find?_map]
  congr 1
  refine congrArg (fun g => t.rows.find? g) (funext fun r => ?_)
  simp only [Function.comp]
  split <;> simp [hq]

theorem find?_insert? {t t' : Table Row} {row : Row} (h : t.insert? row = some t') (q : Row → Bool) :
    t'.rows.find? q = (t.rows.find? q).or (if q row then some row else none) := by
  rw [(insert?_eq_some.1 h).2, List.find?_append]
  congr 1
  rw [List.find?_cons]
  split <;> simp_all

/-! ## Sums -/

theorem sumBy_insert? {t t' : Table Row} {row : Row} (h : t.insert? row = some t') (c : Row → Int) :
    t'.sumBy c = t.sumBy c + c row := by
  simp [sumBy, (insert?_eq_some.1 h).2]

theorem sumBy_update (t : Table Row) (p : Row → Bool) (f : Row → Row) (hf) (c : Row → Int) :
    (t.update p f hf).sumBy c = t.sumBy fun r => c (if p r then f r else r) := by
  simp [sumBy, Function.comp_def]

theorem sumBy_congr {t : Table Row} {c d : Row → Int} (h : ∀ r ∈ t.rows, c r = d r) :
    t.sumBy c = t.sumBy d := by
  simp only [sumBy]
  rw [List.map_congr_left h]

theorem sumBy_mono {t : Table Row} {c d : Row → Int} (h : ∀ r ∈ t.rows, c r ≤ d r) :
    t.sumBy c ≤ t.sumBy d :=
  List.sum_le_sum h

theorem sumBy_nonneg {t : Table Row} {c : Row → Int} (h : ∀ r ∈ t.rows, 0 ≤ c r) : 0 ≤ t.sumBy c :=
  List.sum_nonneg fun x hx => by
    obtain ⟨r, hr, rfl⟩ := List.mem_map.1 hx
    exact h r hr

/-- The sum over the rows of a WHERE clause. -/
theorem sumBy_filter (t : Table Row) (q : Row → Bool) (c : Row → Int) :
    (t.sumBy fun r => if q r then c r else 0) = ((t.rows.filter q).map c).sum := by
  simp only [sumBy]
  induction t.rows with
  | nil => rfl
  | cons r l ih =>
    simp only [List.map_cons, List.sum_cons, List.filter_cons, ih]
    split <;> simp

/-- A statement on other rows leaves the rows of a WHERE clause alone. -/
theorem filter_update {t : Table Row} {p q : Row → Bool} {f : Row → Row} (hf) (hq : ∀ r, q (f r) = q r)
    (hpq : ∀ r, p r = true → q r = false) : (t.update p f hf).rows.filter q = t.rows.filter q := by
  rw [rows_update]
  induction t.rows with
  | nil => rfl
  | cons r l ih =>
    simp only [List.map_cons, List.filter_cons, ih]
    by_cases h : p r = true
    · simp [h, hq, hpq r h]
    · simp [h]

/-- An update that leaves a column's contribution alone on every row leaves its sum alone. -/
theorem sumBy_update_eq {t : Table Row} {p : Row → Bool} {f : Row → Row} (hf) {c : Row → Int}
    (h : ∀ r ∈ t.rows, p r = true → c (f r) = c r) : (t.update p f hf).sumBy c = t.sumBy c := by
  rw [sumBy_update]
  refine sumBy_congr fun r hr => ?_
  split
  · next hp => exact h r hr hp
  · rfl

theorem sumBy_update_le {t : Table Row} {p : Row → Bool} {f : Row → Row} {hf} {c : Row → Int}
    (h : ∀ r ∈ t.rows, p r = true → c (f r) ≤ c r) : (t.update p f hf).sumBy c ≤ t.sumBy c := by
  rw [sumBy_update]
  refine sumBy_mono fun r hr => ?_
  split
  · next hp => exact h r hr hp
  · exact le_refl _

/-- Updating the one row a unique key picks moves a sum by what that row contributes. -/
theorem sumBy_update_of_mem {t : Table Row} {q p : Row → Bool} {f : Row → Row} {hf} (hq : Identifies q)
    {r : Row} (hr : r ∈ t.rows) (hqr : q r = true) (hp : p r = true) (hpq : ∀ s, p s = true → q s = true)
    (c : Row → Int) : (t.update p f hf).sumBy c = t.sumBy c + (c (f r) - c r) := by
  rw [sumBy_update]
  obtain ⟨rows, hu⟩ := t
  simp only [sumBy] at hr ⊢
  induction rows with
  | nil => simp at hr
  | cons a l ih =>
    rw [List.pairwise_cons] at hu
    simp only [List.map_cons, List.sum_cons]
    rcases List.mem_cons.1 hr with rfl | hr
    · have hl : l.map (fun s => c (if p s then f s else s)) = l.map c := by
        refine List.map_congr_left fun s hs => ?_
        have : p s = false := by
          by_contra hne
          have := hq r s hqr (hpq s (by simpa using hne))
          simp [hu.1 s hs] at this
        simp [this]
      rw [hl]
      simp only [hp, if_true]
      omega
    · have : p a = false := by
        by_contra hne
        have := hq a r (hpq a (by simpa using hne)) hqr
        simp [hu.1 r hr] at this
      have ih := ih hu.2 hr
      simp only [this, Bool.false_eq_true, if_false]
      omega

end Table

end Zenod
