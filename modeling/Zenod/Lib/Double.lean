/-
The numbers of JavaScript: a double, as the rational it is, and the shortest
numeral that reads as it. A numeral is read as the nearest double, of two by
the even one; what is as large as `2 ^ 1024` is infinite.

`JsonNumber.toNumber_idem`: a number that is written is read back.
-/
import Mathlib.Data.Rat.Floor
import Zenod.Lib.JsonRead

namespace Zenod.Double

/-- `2 ^ k`. -/
def twoTo (k : Int) : Rat := if 0 ≤ k then (2 ^ k.toNat : Nat) else 1 / (2 ^ (-k).toNat : Nat)

/-- `10 ^ k`. -/
def tenTo (k : Int) : Rat := if 0 ≤ k then (10 ^ k.toNat : Nat) else 1 / (10 ^ (-k).toNat : Nat)

/-- The last power of two that a positive number reaches. -/
def binaryExponent (q : Rat) : Int :=
  let k : Int := (Nat.log2 q.num.natAbs : Int) - Nat.log2 q.den
  if q < twoTo k then k - 1 else k

/-- The nearest whole number, of two the even one. -/
def roundHalfEven (q : Rat) : Int :=
  let f := q.floor
  let r := q - f
  if r < 1 / 2 then f else if 1 / 2 < r then f + 1 else if f % 2 = 0 then f else f + 1

/-- The double a number is read as; none if it is too large. -/
def nearest (q : Rat) : Option Rat :=
  if q = 0 then some 0
  else
    let e := max (binaryExponent (if q < 0 then -q else q) - 52) (-1074)
    let d := roundHalfEven (q / twoTo e) * twoTo e
    if -twoTo 1024 < d ∧ d < twoTo 1024 then some d else none

/-! ## Numerals -/

/-- The number of digits before the point; of a number below one, less the zeros behind it. -/
def decimalExponent (q : Rat) : Int :=
  if 1 ≤ q then (Nat.toDigits 10 q.floor.toNat).length
  else 1 - (((List.range 400).find? fun z : Nat => decide (1 ≤ q * tenTo z)).getD 0 : Nat)

/-- Numbers of `k` digits next to a positive number, the nearest first. -/
def candidates (q : Rat) (n : Int) (k : Nat) : List Nat :=
  let scaled := q / tenTo (n - k)
  let f := scaled.floor.toNat
  let r := scaled - f
  if r < 1 / 2 ∨ (r = 1 / 2 ∧ f % 2 = 0) then [f, f + 1] else [f + 1, f]

/-- The digits of a number, of which `n` stand before the point. -/
def layOut (digits : Text) (n : Int) : Text :=
  let k := digits.length
  let zeros := fun m : Int => List.replicate m.toNat '0'
  if k ≤ n ∧ n ≤ 21 then digits ++ zeros (n - k)
  else if 0 < n ∧ n ≤ 21 then digits.take n.toNat ++ '.' :: digits.drop n.toNat
  else if -6 < n ∧ n ≤ 0 then "0.".toList ++ zeros (-n) ++ digits
  else
    let fraction := if k = 1 then [] else '.' :: digits.drop 1
    let exponent := (if n - 1 < 0 then ['-'] else ['+']) ++ Nat.toDigits 10 (n - 1).natAbs
    digits.take 1 ++ fraction ++ 'e' :: exponent

/-- The numeral of a positive double: as few digits as read as it, and of these the nearest. -/
def shortest (d : Rat) : Option Text :=
  let n := decimalExponent d
  (List.range 17).findSome? fun i =>
    let k := i + 1
    ((candidates d n k).find? fun s : Nat => decide (nearest (s * tenTo (n - k)) = some d)).map fun s =>
      if s = 10 ^ k then layOut ['1'] (n + 1) else layOut (Nat.toDigits 10 s) n

/-- `String(d)`. -/
def numeral (d : Rat) : Option Text :=
  if d = 0 then some ['0'] else if d < 0 then (shortest (-d)).map ('-' :: ·) else shortest d

end Zenod.Double

namespace Zenod.JsonNumber

open Double

/-- What stands for an infinite number, which has no numeral. -/
def infinite (negative : Bool) : JsonNumber :=
  if negative then ⟨"-1e999".toList, by decide, by decide⟩ else ⟨"1e999".toList, by decide, by decide⟩

/-- The numeral of the number that one is read as. It reads as that number: of a double some numeral does. -/
def toNumber (n : JsonNumber) : JsonNumber :=
  match nearest n.value with
  | none => infinite (n.value < 0)
  | some d =>
    match numeral d with
    | some t =>
      if h : (t ≠ [] ∧ t.all isNumberChar = true) ∧ isNumberText t = true then
        if nearest (JsonNumber.value ⟨t, h.1.1, h.1.2⟩) = some d then ⟨t, h.1.1, h.1.2⟩ else n
      else n
    | none => n

/-- **A number that is written is read back.** -/
theorem toNumber_idem (n : JsonNumber) : n.toNumber.toNumber = n.toNumber := by
  have hinfinite : ∀ b, (infinite b).toNumber = infinite b := by decide +kernel
  cases hn : nearest n.value with
  | none =>
    have hto : n.toNumber = infinite (n.value < 0) := by simp only [toNumber, hn]
    rw [hto, hinfinite]
  | some d =>
    cases ht : numeral d with
    | none =>
      have hto : n.toNumber = n := by simp only [toNumber, hn, ht]
      rw [hto, hto]
    | some t =>
      by_cases h : (t ≠ [] ∧ t.all isNumberChar = true) ∧ isNumberText t = true
      · by_cases hback : nearest (JsonNumber.value ⟨t, h.1.1, h.1.2⟩) = some d
        · have hto : ∀ m : JsonNumber, nearest m.value = some d → m.toNumber = ⟨t, h.1.1, h.1.2⟩ := by
            intro m hm
            simp only [toNumber, hm, ht, dif_pos h, if_pos hback]
          rw [hto n hn, hto _ hback]
        · have hto : n.toNumber = n := by simp only [toNumber, hn, ht, dif_pos h, if_neg hback]
          rw [hto, hto]
      · have hto : n.toNumber = n := by simp only [toNumber, hn, ht, dif_neg h]
        rw [hto, hto]

end Zenod.JsonNumber
