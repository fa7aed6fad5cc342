/-
`Number(text)` of JavaScript: white space is stripped, nothing is zero, and
what is left is a number of base 16, 8 or 2 behind its mark, or a decimal
numeral, read as the nearest double.

A text with a character that no numeral has is not a number
(`toNumber_of_mem`).
-/
import Zenod.Lib.Double

namespace Zenod.Number

open Text

/-- The number of a digit, of letters behind the nine. -/
def digitOf (c : Char) : Option Nat :=
  if '0' ≤ c ∧ c ≤ '9' then some (c.toNat - 0x30)
  else if 'a' ≤ c ∧ c ≤ 'z' then some (c.toNat - 0x61 + 10)
  else if 'A' ≤ c ∧ c ≤ 'Z' then some (c.toNat - 0x41 + 10)
  else none

/-- The digits of a base, at least one. -/
def digits (base : Nat) (t : Text) : Option Nat :=
  if t ≠ [] ∧ t.all (fun c => (digitOf c).any (· < base)) then
    some (t.foldl (fun n c => base * n + (digitOf c).getD 0) 0)
  else none

/-- A sign and what stands behind it. -/
def signed : Text → Int × Text
  | '-' :: t => (-1, t)
  | '+' :: t => (1, t)
  | t => (1, t)

/-- Digits with a point before, between or behind them, and how many stand behind it. -/
def mantissa (t : Text) : Option (Nat × Nat) :=
  match t.span (· ≠ '.') with
  | (whole, _ :: fraction) => (digits 10 (whole ++ fraction)).map fun m => (m, fraction.length)
  | (whole, []) => (digits 10 whole).map fun m => (m, 0)

def exponent (t : Text) : Option Int := (digits 10 (signed t).2).map fun n => (signed t).1 * n

/-- A decimal numeral without a sign. -/
def decimal (t : Text) : Option Rat :=
  match t.span fun c => c ≠ 'e' ∧ c ≠ 'E' with
  | (m, _ :: e) => do
    let (m, places) ← mantissa m
    let e ← exponent e
    some (m * Double.tenTo (e - places))
  | (m, []) => (mantissa m).map fun (m, places) => m * Double.tenTo (-places)

/-- `Number(text)`; none if it is NaN or infinite. -/
def toNumber (text : Text) : Option Rat :=
  match trim text with
  | [] => some 0
  | '0' :: c :: t =>
    if c = 'x' ∨ c = 'X' then (digits 16 t).bind fun n => Double.nearest n
    else if c = 'o' ∨ c = 'O' then (digits 8 t).bind fun n => Double.nearest n
    else if c = 'b' ∨ c = 'B' then (digits 2 t).bind fun n => Double.nearest n
    else (decimal ('0' :: c :: t)).bind Double.nearest
  | t => (decimal (signed t).2).bind fun d => Double.nearest ((signed t).1 * d)

/-- `Number.isInteger`, of a number from 0 to 255. -/
def byte (q : Rat) : Option (Fin 256) :=
  if h : q.den = 1 ∧ 0 ≤ q.num ∧ q.num < 256 then some ⟨q.num.toNat, by omega⟩ else none

/-- **A number is written in decimal and read again.** -/
theorem toNumber_decimal (n : Fin 256) : (toNumber (Nat.toDigits 10 n)).bind byte = some n := by
  revert n
  decide +kernel

/-! ## What is not a number -/

/-- A character that no numeral has. -/
def Foreign (c : Char) : Prop := digitOf c = none ∧ Js.isSpace c = false ∧ c ≠ '.' ∧ c ≠ '-' ∧ c ≠ '+'

variable {c : Char} {t : Text}

theorem digits_of_mem {base : Nat} (hc : Foreign c) (h : c ∈ t) : digits base t = none := by
  refine if_neg fun hall => ?_
  have hdigit := List.all_eq_true.1 hall.2 c h
  rw [hc.1] at hdigit
  cases hdigit

theorem mem_signed (hc : Foreign c) (h : c ∈ t) : c ∈ (signed t).2 := by
  unfold signed
  split
  next => exact (List.mem_cons.1 h).resolve_left hc.2.2.2.1
  next => exact (List.mem_cons.1 h).resolve_left hc.2.2.2.2
  next => exact h

theorem mantissa_of_mem (hc : Foreign c) (h : c ∈ t) : mantissa t = none := by
  have hparts := List.takeWhile_append_dropWhile (p := (· ≠ '.')) (l := t)
  unfold mantissa
  rw [List.span_eq_takeWhile_dropWhile]
  split
  next whole d fraction heq =>
    obtain ⟨rfl, hrest⟩ := Prod.mk.inj heq
    have hd : d = '.' := by
      have hhead := List.head?_dropWhile_not (fun c : Char => decide (c ≠ '.')) t
      rw [hrest] at hhead
      simpa using hhead
    have hmem : c ∈ t.takeWhile (· ≠ '.') ++ fraction := by
      rw [← hparts, hrest] at h
      rcases List.mem_append.1 h with h | h
      · exact List.mem_append_left _ h
      · rcases List.mem_cons.1 h with heq | h
        · exact absurd (heq.trans hd) hc.2.2.1
        · exact List.mem_append_right _ h
    rw [digits_of_mem hc hmem]
    rfl
  next whole heq =>
    obtain ⟨rfl, hrest⟩ := Prod.mk.inj heq
    rw [hrest, List.append_nil] at hparts
    rw [hparts, digits_of_mem hc h]
    rfl

theorem decimal_of_mem (hc : Foreign c) (h : c ∈ t) : decimal t = none := by
  have hparts := List.takeWhile_append_dropWhile (p := fun c : Char => decide (c ≠ 'e' ∧ c ≠ 'E')) (l := t)
  unfold decimal
  rw [List.span_eq_takeWhile_dropWhile]
  split
  next m d e heq =>
    obtain ⟨rfl, hrest⟩ := Prod.mk.inj heq
    have hd : d = 'e' ∨ d = 'E' := by
      have hhead := List.head?_dropWhile_not (fun c : Char => decide (c ≠ 'e' ∧ c ≠ 'E')) t
      rw [hrest] at hhead
      by_contra hne
      rw [not_or] at hne
      simp [hne.1, hne.2] at hhead
    rw [← hparts, hrest] at h
    rcases List.mem_append.1 h with h | h
    · rw [mantissa_of_mem hc h]
      rfl
    · rcases List.mem_cons.1 h with heq | h
      · have hdigit := hc.1
        rw [heq] at hdigit
        rcases hd with rfl | rfl
        · exact absurd hdigit (by decide)
        · exact absurd hdigit (by decide)
      · have hexponent : exponent e = none := by
          unfold exponent
          rw [digits_of_mem hc (mem_signed hc h)]
          rfl
        rw [hexponent]
        cases mantissa _ <;> rfl
  next m heq =>
    obtain ⟨rfl, hrest⟩ := Prod.mk.inj heq
    rw [hrest, List.append_nil] at hparts
    rw [hparts, mantissa_of_mem hc h]
    rfl

theorem mem_trim (hspace : Js.isSpace c = false) (h : c ∈ t) : c ∈ trim t := by
  have hkeep : ∀ l : Text, c ∈ l → c ∈ l.dropWhile Js.isSpace := fun l hl => by
    rw [← List.takeWhile_append_dropWhile (p := Js.isSpace) (l := l)] at hl
    refine (List.mem_append.1 hl).resolve_left fun hmem => ?_
    have hspace' := List.mem_takeWhile_imp hmem
    rw [hspace] at hspace'
    cases hspace'
  exact List.mem_reverse.2 (hkeep _ (List.mem_reverse.2 (hkeep t h)))

/-- **A text with a foreign character is not a number.** -/
theorem toNumber_of_mem (hc : Foreign c) (h : c ∈ t) : toNumber t = none := by
  have hmem := mem_trim hc.2.1 h
  unfold toNumber
  split
  next heq =>
    rw [heq] at hmem
    cases hmem
  next d t' heq =>
    have hzero : c ≠ '0' := fun heq => by
      have hdigit := hc.1
      rw [heq] at hdigit
      exact absurd hdigit (by decide)
    have hradix : ∀ base, c = d ∨ digits base t' = none := fun base => by
      rw [heq] at hmem
      rcases List.mem_cons.1 ((List.mem_cons.1 hmem).resolve_left hzero) with hd | ht
      · exact Or.inl hd
      · exact Or.inr (digits_of_mem hc ht)
    have hletter : ∀ base, (d = 'x' ∨ d = 'X' ∨ d = 'o' ∨ d = 'O' ∨ d = 'b' ∨ d = 'B') → digits base t' = none := by
      refine fun base hd => (hradix base).resolve_left fun heq => ?_
      have hdigit := hc.1
      rw [heq] at hdigit
      rcases hd with rfl | rfl | rfl | rfl | rfl | rfl
      all_goals exact absurd hdigit (by decide)
    split
    next hx => rw [hletter 16 (by tauto)]; rfl
    next =>
      split
      next ho => rw [hletter 8 (by tauto)]; rfl
      next =>
        split
        next hb => rw [hletter 2 (by tauto)]; rfl
        next =>
          rw [heq] at hmem
          rw [decimal_of_mem hc hmem]
          rfl
  next =>
    rw [decimal_of_mem hc (mem_signed hc hmem)]
    rfl

end Zenod.Number
