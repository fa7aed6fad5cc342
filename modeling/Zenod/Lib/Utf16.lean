/-
JavaScript strings as they are: lists of UTF-16 code units, in which half of a
surrogate pair may stand alone, and offsets count units. `Lib.Text` reads the
same strings as characters.
-/
import Mathlib.Data.List.Basic
import Mathlib.Data.List.DropRight
import Mathlib.Data.List.Infix
import Mathlib.Data.Nat.Digits.Defs
import Zenod.Lib.Regex

namespace Zenod

abbrev Units := List UInt16

namespace Units

/-- The units of a text of the ASCII characters. -/
def ofText (t : Text) : Units := t.map fun c => c.toNat.toUInt16

/-- `[\uDC00-\uDFFF]`. -/
def isLow (u : UInt16) : Bool := 0xDC00 ≤ u && u ≤ 0xDFFF

def isHigh (u : UInt16) : Bool := 0xD800 ≤ u && u ≤ 0xDBFF

/-- Every half of a surrogate pair stands with the other. -/
def WellFormed : Units → Prop
  | [] => True
  | [u] => isHigh u = false ∧ isLow u = false
  | u :: v :: t =>
    if isHigh u then isLow v = true ∧ WellFormed t
    else isLow u = false ∧ WellFormed (v :: t)

/-- The character of a unit; half of a pair is none. -/
def charOf (u : UInt16) : Option Char := if isLow u || isHigh u then none else some (Char.ofNat u.toNat)

/-- The first code point of a string, `/u` patterns match. -/
def firstChar : Units → Option Char
  | [] => none
  | [u] => charOf u
  | u :: v :: _ =>
    if isHigh u && isLow v then some (Char.ofNat (0x10000 + (u.toNat - 0xD800) * 0x400 + (v.toNat - 0xDC00)))
    else charOf u

/-- `\s`. -/
def isSpace (u : UInt16) : Bool := (charOf u).any Js.isSpace

/-- `t.trim()`. -/
def trim (t : Units) : Units := (t.dropWhile isSpace).rdropWhile isSpace

/-- `t.slice(start, stop)` of offsets from the front. -/
def slice (t : Units) (start stop : Nat) : Units := (t.take stop).drop start

/-- `t.slice(start, stop)`, where an offset below zero counts from the end. -/
def sliceAt (t : Units) (start stop : Int) : Units :=
  let place (i : Int) : Nat := if i < 0 then (t.length + i).toNat else i.toNat
  slice t (place start) (place stop)

/-- The offsets at which a text stands in another, in order: what `indexOf` finds from each one on. -/
def occurrences (needle t : Units) : List Nat :=
  (List.range (t.length + 1)).filter fun at_ => needle.isPrefixOf (t.drop at_)

/-- `t.lastIndexOf(needle)`. -/
def lastIndexOf (needle t : Units) : Int := ((occurrences needle t).getLast?.map Int.ofNat).getD (-1)

/-- `n.toString(36)`. -/
def base36Digit (d : Nat) : UInt16 := (if d < 10 then 0x30 + d else 0x57 + d).toUInt16

/-- The digits from the last one on. -/
def digits36 (n : Nat) : List Nat := if n = 0 then [0] else Nat.digits 36 n

def base36 (n : Nat) : Units := ((digits36 n).map base36Digit).reverse

/-! ## Slices -/

variable {t a b c : Units} {i j k : Nat}

theorem length_slice (h : j ≤ t.length) : (slice t i j).length = j - i := by
  rw [slice, List.length_drop, List.length_take, Nat.min_eq_left h]

theorem slice_append (hij : i ≤ j) (hjk : j ≤ k) : slice t i j ++ slice t j k = slice t i k := by
  have hprefix : t.take j = (t.take k).take j := by rw [List.take_take, Nat.min_eq_left hjk]
  rw [slice, slice, slice, hprefix, List.drop_take]
  have hsplit := List.take_append_drop (j - i) ((t.take k).drop i)
  rwa [List.drop_drop, Nat.add_sub_cancel' hij] at hsplit

theorem slice_slice (h : i + k ≤ j) (a : Nat) : slice (slice t i j) a k = slice t (i + a) (i + k) := by
  rw [slice, slice, slice, List.take_drop, List.take_take, Nat.min_eq_left h, List.drop_drop]

theorem mem_slice {u : UInt16} (hu : t[k]? = some u) (hi : i ≤ k) (hj : k < j) : u ∈ slice t i j := by
  have hat : (slice t i j)[k - i]? = some u := by
    rw [slice, List.getElem?_drop, Nat.add_sub_cancel' hi, List.getElem?_take_of_lt hj, hu]
  exact List.mem_of_getElem? hat

theorem slice_parts : slice (a ++ (b ++ c)) a.length (a.length + b.length) = b := by
  rw [slice, List.take_length_add_append, List.take_left, List.drop_left]

theorem split_slice (hij : i ≤ j) (hj : j ≤ t.length) :
    t = t.take i ++ (slice t i j ++ t.drop j) ∧ (t.take i).length = i ∧ (slice t i j).length = j - i := by
  refine ⟨?_, by simp; omega, length_slice hj⟩
  have hfront : t.take i ++ slice t i j = t.take j := by
    have := slice_append (t := t) (Nat.zero_le i) hij
    simpa [slice] using this
  rw [← List.append_assoc, hfront, List.take_append_drop]

theorem trim_eq_nil : trim t = [] ↔ ∀ u ∈ t, isSpace u = true := by
  constructor
  · intro h
    rw [trim, List.rdropWhile_eq_nil_iff] at h
    have hdrop : t.dropWhile isSpace = [] := by
      by_contra hne
      have hfirst := List.head_dropWhile_not isSpace hne
      rw [h _ (List.head_mem hne)] at hfirst
      cases hfirst
    exact List.dropWhile_eq_nil_iff.1 hdrop
  · intro h
    rw [trim, List.dropWhile_eq_nil_iff.2 h]
    rfl

theorem mem_occurrences {needle : Units} : k ∈ occurrences needle t ↔ ∃ a b, t = a ++ (needle ++ b) ∧ a.length = k := by
  rw [occurrences, List.mem_filter, List.mem_range, List.isPrefixOf_iff_prefix]
  constructor
  · rintro ⟨hk, b, hb⟩
    exact ⟨t.take k, b, by rw [hb, List.take_append_drop], by simp; omega⟩
  · rintro ⟨a, b, rfl, rfl⟩
    refine ⟨by simp only [List.length_append]; omega, b, by simp⟩

/-! ## Surrogate pairs -/

theorem isLow_of_isHigh {u : UInt16} (h : isHigh u = true) : isLow u = false := by
  simp only [isHigh, isLow, Bool.and_eq_true, decide_eq_true_eq, Bool.and_eq_false_iff, decide_eq_false_iff_not,
    UInt16.le_iff_toNat_le] at h ⊢
  have hmax : (0xDBFF : UInt16).toNat = 0xDBFF := rfl
  have hlow : (0xDC00 : UInt16).toNat = 0xDC00 := rfl
  omega

/-- **A cut that no low half follows splits no pair.** -/
theorem WellFormed.cut (h : WellFormed (a ++ b)) (hcut : b.head?.any isLow = false) : WellFormed a ∧ WellFormed b := by
  induction a using WellFormed.induct with
  | case1 => exact ⟨trivial, h⟩
  | case2 u =>
    cases b with
    | nil => exact ⟨h, trivial⟩
    | cons v b =>
      have hv : isLow v = false := hcut
      simp only [List.cons_append, List.nil_append, WellFormed] at h
      split at h
      next => rw [hv] at h; exact absurd h.1 Bool.false_ne_true
      next hu => exact ⟨⟨Bool.eq_false_iff.2 hu, h.1⟩, h.2⟩
  | case3 u v a hu ih =>
    simp only [List.cons_append, WellFormed] at h ⊢
    rw [if_pos hu] at h ⊢
    obtain ⟨ha, hb⟩ := ih h.2
    exact ⟨⟨h.1, ha⟩, hb⟩
  | case4 u v a hu ih =>
    simp only [List.cons_append, WellFormed] at h ⊢
    rw [if_neg hu] at h ⊢
    obtain ⟨ha, hb⟩ := ih h.2
    exact ⟨⟨h.1, ha⟩, hb⟩

/-- In front of a low half stands a high one. -/
theorem WellFormed.before_low (h : WellFormed (a ++ b)) (hlow : b.head?.any isLow = true) :
    a.getLast?.any isHigh = true := by
  induction a using WellFormed.induct with
  | case1 =>
    cases b with
    | nil => cases hlow
    | cons v b =>
      have hv : isLow v = true := hlow
      cases b with
      | nil =>
        rw [List.nil_append, WellFormed, hv] at h
        exact absurd h.2 Bool.noConfusion
      | cons w b =>
        simp only [List.nil_append, WellFormed] at h
        split at h
        next hhigh => rw [isLow_of_isHigh hhigh] at hv; cases hv
        next => rw [hv] at h; exact absurd h.1 Bool.noConfusion
  | case2 u =>
    cases b with
    | nil => cases hlow
    | cons v b =>
      have hv : isLow v = true := hlow
      by_cases hu : isHigh u = true
      · exact hu
      · simp only [List.cons_append, List.nil_append, WellFormed] at h
        rw [if_neg hu] at h
        cases b with
        | nil =>
          rw [WellFormed, hv] at h
          exact absurd h.2.2 Bool.noConfusion
        | cons w b =>
          simp only [WellFormed] at h
          split at h
          next hhigh => rw [isLow_of_isHigh hhigh] at hv; cases hv
          next => rw [hv] at h; exact absurd h.2.1 Bool.noConfusion
  | case3 u v a hu ih =>
    simp only [List.cons_append, WellFormed] at h
    rw [if_pos hu] at h
    cases a with
    | nil =>
      have hnone := ih h.2
      cases hnone
    | cons w a =>
      have hsome := ih h.2
      simpa using hsome
  | case4 u v a hu ih =>
    simp only [List.cons_append, WellFormed] at h
    rw [if_neg hu] at h
    have hsome := ih h.2
    simpa using hsome

/-! ## Numerals -/

theorem base36Digit_inj {d e : Nat} (hd : d < 36) (he : e < 36) (h : base36Digit d = base36Digit e) : d = e := by
  have hall : ∀ d < 36, ∀ e < 36, base36Digit d = base36Digit e → d = e := by decide
  exact hall d hd e he h

theorem hyphen_ne_base36Digit {d : Nat} (hd : d < 36) : base36Digit d ≠ 0x2d := by
  have hall : ∀ d < 36, base36Digit d ≠ 0x2d := by decide
  exact hall d hd

theorem digits36_lt {n d : Nat} (h : d ∈ digits36 n) : d < 36 := by
  unfold digits36 at h
  split at h
  next =>
    rw [List.mem_singleton.1 h]
    decide
  next => exact Nat.digits_lt_base (by decide) h

theorem ofDigits_digits36 (n : Nat) : Nat.ofDigits 36 (digits36 n) = n := by
  unfold digits36
  split
  next h => simp [h]
  next => exact Nat.ofDigits_digits 36 n

theorem hyphen_not_mem_base36 (n : Nat) : 0x2d ∉ base36 n := by
  intro hmem
  obtain ⟨d, hd, heq⟩ := List.mem_map.1 (List.mem_reverse.1 hmem)
  exact hyphen_ne_base36Digit (digits36_lt hd) heq

theorem map_base36Digit_inj {ds es : List Nat} (hds : ∀ d ∈ ds, d < 36) (hes : ∀ e ∈ es, e < 36)
    (h : ds.map base36Digit = es.map base36Digit) : ds = es := by
  induction ds generalizing es with
  | nil =>
    cases es with
    | nil => rfl
    | cons e es => cases h
  | cons d ds ih =>
    cases es with
    | nil => cases h
    | cons e es =>
      obtain ⟨hfirst, hrest⟩ := List.cons.inj h
      rw [base36Digit_inj (hds d List.mem_cons_self) (hes e List.mem_cons_self) hfirst,
        ih (fun d hd => hds d (List.mem_cons_of_mem _ hd)) (fun e he => hes e (List.mem_cons_of_mem _ he)) hrest]

theorem base36_inj {m n : Nat} (h : base36 m = base36 n) : m = n := by
  have hdigits := map_base36Digit_inj (fun _ => digits36_lt) (fun _ => digits36_lt) (List.reverse_injective h)
  rw [← ofDigits_digits36 m, hdigits, ofDigits_digits36]

end Units

end Zenod
