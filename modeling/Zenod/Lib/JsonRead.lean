/-
Reading JSON: `JSON.parse`, and the values of numbers. A lone surrogate, which
a text cannot hold, is read as U+FFFD.

`parse_lay`, `parse_print`: a value is read back from its text, with or without
white space between the tokens, if its numbers are written as the grammar of
JSON has them.
-/
import Mathlib.Algebra.Field.Rat
import Mathlib.Data.Rat.Cast.Defs
import Mathlib.Tactic.NormNum.Basic
import Zenod.Lib.Json

namespace Zenod

/-! ## Numbers -/

/-- A number, taken apart: what stands before and behind the point, and what stands behind the `e`. -/
structure NumberParts where
  negative : Bool
  whole : Text
  fraction : Option Text
  exponent : Option Text

/-- A text without its sign. -/
def unsigned (t : Text) : Text := if t.head? = some '-' ∨ t.head? = some '+' then t.tail else t

def isExponentMark (c : Char) : Bool := c == 'e' || c == 'E'

/-- What stands before the first such character, and what behind it. -/
def divide (p : Char → Bool) (t : Text) : Text × Option Text :=
  (t.takeWhile (!p ·), match t.dropWhile (!p ·) with
    | [] => none
    | _ :: rest => some rest)

def numberParts (t : Text) : NumberParts :=
  let negative : Bool := t.head? = some '-'
  let parts := divide isExponentMark (if negative then t.tail else t)
  let mantissa := divide (· == '.') parts.1
  { negative := negative, whole := mantissa.1, fraction := mantissa.2, exponent := parts.2 }

def isDigits (t : Text) : Bool := t ≠ [] && t.all Char.isDigit

/-- The grammar of numbers. -/
def isNumberText (t : Text) : Bool :=
  let parts := numberParts t
  isDigits parts.whole && (parts.whole.length = 1 || parts.whole.head? ≠ some '0') &&
    parts.fraction.all (isDigits ·) && parts.exponent.all fun e => isDigits (unsigned e)

def natOf (digits : Text) : Nat := Nat.ofDigitChars 10 digits 0

def JsonNumber.value (n : JsonNumber) : Rat :=
  let parts := numberParts n.text
  let digits := natOf (parts.whole ++ parts.fraction.getD [])
  let places := (parts.fraction.getD []).length
  let power := natOf (unsigned (parts.exponent.getD []))
  let sign : Rat := if parts.negative then -1 else 1
  let magnitude : Rat :=
    if (parts.exponent.getD []).head? = some '-' then 1 / 10 ^ power else 10 ^ power
  sign * digits / 10 ^ places * magnitude

/-- A whole number, in decimal. -/
def decimal (n : Int) : Text := (if n < 0 then ['-'] else []) ++ Nat.toDigits 10 n.natAbs

theorem isDigit_of_mem {n : Nat} {c : Char} (h : c ∈ Nat.toDigits 10 n) : c.isDigit = true :=
  Nat.isDigit_of_mem_toDigits (by decide) (by decide) h

theorem isNumberChar_of_isDigit {c : Char} (h : c.isDigit = true) : isNumberChar c = true := by
  have hle : '0'.val ≤ c.val ∧ c.val ≤ '9'.val := by
    unfold Char.isDigit at h
    simpa using h
  have hrange : 0x30 ≤ c.toNat ∧ c.toNat ≤ 0x39 := ⟨UInt32.le_iff_toNat_le.1 hle.1, UInt32.le_iff_toNat_le.1 hle.2⟩
  have hall : ∀ n, 0x30 ≤ n ∧ n ≤ 0x39 → isNumberChar (Char.ofNat n) = true := by
    intro n hn
    have : ∀ n < 0x3a, 0x30 ≤ n → isNumberChar (Char.ofNat n) = true := by decide
    exact this n (by omega) hn.1
  rw [← Char.ofNat_toNat c]
  exact hall _ hrange

theorem decimal_chars (n : Int) : (decimal n).all isNumberChar = true := by
  refine List.all_eq_true.2 fun c hc => ?_
  rcases List.mem_append.1 hc with hc | hc
  · split at hc
    · rw [List.mem_singleton.1 hc]
      decide
    · cases hc
  · exact isNumberChar_of_isDigit (isDigit_of_mem hc)

def JsonNumber.ofInt (n : Int) : JsonNumber where
  text := decimal n
  nonempty := fun h => Nat.toDigits_ne_nil (List.append_eq_nil_iff.1 h).2
  chars := decimal_chars n

theorem divide_of_forall {p : Char → Bool} {t : Text} (h : ∀ c ∈ t, p c = false) : divide p t = (t, none) := by
  have htake : t.takeWhile (!p ·) = t := List.takeWhile_eq_self_iff.2 fun c hc => by rw [h c hc]; rfl
  have hdrop : t.dropWhile (!p ·) = [] := List.dropWhile_eq_nil_iff.2 fun c hc => by rw [h c hc]; rfl
  unfold divide
  rw [htake, hdrop]

theorem numberParts_decimal (n : Int) :
    numberParts (decimal n) = { negative := decide (n < 0), whole := Nat.toDigits 10 n.natAbs, fraction := none, exponent := none } := by
  have hdigit : ∀ {p : Char → Bool}, (∀ c, c.isDigit = true → p c = false) →
      divide p (Nat.toDigits 10 n.natAbs) = (Nat.toDigits 10 n.natAbs, none) :=
    fun hp => divide_of_forall fun c hc => hp c (isDigit_of_mem hc)
  have hexponent : ∀ c : Char, c.isDigit = true → isExponentMark c = false := by
    intro c hc
    unfold isExponentMark
    rw [Bool.or_eq_false_iff]
    constructor
    · refine beq_eq_false_iff_ne.2 fun h => ?_
      rw [h] at hc
      exact absurd hc (by decide)
    · refine beq_eq_false_iff_ne.2 fun h => ?_
      rw [h] at hc
      exact absurd hc (by decide)
  have hpoint : ∀ c : Char, c.isDigit = true → (c == '.') = false := by
    intro c hc
    refine beq_eq_false_iff_ne.2 fun h => ?_
    rw [h] at hc
    exact absurd hc (by decide)
  have hhead : (Nat.toDigits 10 n.natAbs).head? ≠ some '-' := by
    intro h
    exact absurd (isDigit_of_mem (List.mem_of_mem_head? h)) (by decide)
  unfold numberParts decimal
  by_cases hn : n < 0
  · simp [hn, hdigit hexponent, hdigit hpoint]
  · simp [hn, hhead, hdigit hexponent, hdigit hpoint]

@[simp] theorem natOf_toDigits (n : Nat) : natOf (Nat.toDigits 10 n) = n := Nat.ofDigitChars_ten_toDigits

theorem head_toDigits_ne {n : Nat} (h : 10 ≤ n) : (Nat.toDigits 10 n).head? ≠ some '0' := by
  induction n using Nat.strong_induction_on with
  | _ n ih =>
    rw [Nat.toDigits_of_base_le (by decide) h]
    rw [List.head?_append_of_ne_nil _ Nat.toDigits_ne_nil]
    by_cases hsmall : n / 10 < 10
    · rw [Nat.toDigits_of_lt_base hsmall]
      have hone : 1 ≤ n / 10 := by omega
      generalize n / 10 = m at hsmall hone
      have : ∀ m < 10, 1 ≤ m → [m.digitChar].head? ≠ some '0' := by decide
      exact this m hsmall hone
    · exact ih (n / 10) (by omega) (by omega)

theorem isNumberText_decimal (n : Int) : isNumberText (decimal n) = true := by
  have hdigits : isDigits (Nat.toDigits 10 n.natAbs) = true := by
    unfold isDigits
    rw [Bool.and_eq_true_iff]
    exact ⟨decide_eq_true Nat.toDigits_ne_nil, List.all_eq_true.2 fun c hc => isDigit_of_mem hc⟩
  have hlead : ((Nat.toDigits 10 n.natAbs).length = 1 || (Nat.toDigits 10 n.natAbs).head? ≠ some '0') = true := by
    by_cases hsmall : n.natAbs < 10
    · rw [Nat.toDigits_of_lt_base hsmall]
      rfl
    · rw [Bool.or_eq_true_iff]
      exact Or.inr (decide_eq_true (head_toDigits_ne (by omega)))
  unfold isNumberText
  rw [numberParts_decimal]
  simp only [hdigits, hlead, Option.all_none, Bool.and_self]

/-- **A whole number is read back from its decimal form.** -/
theorem JsonNumber.value_ofInt (n : Int) : (JsonNumber.ofInt n).value = n := by
  have hpower : natOf (unsigned []) = 0 := rfl
  unfold JsonNumber.value JsonNumber.ofInt
  simp only [numberParts_decimal, Option.getD_none, List.append_nil, natOf_toDigits, hpower, List.length_nil, pow_zero,
    List.head?_nil, div_one, mul_one, reduceCtorEq, if_false, decide_eq_true_eq]
  split
  next hn =>
    have habs : (n.natAbs : Int) = -n := by omega
    rw [neg_one_mul, ← Int.cast_natCast, habs, Int.cast_neg, neg_neg]
  next hn =>
    have habs : (n.natAbs : Int) = n := by omega
    rw [one_mul, ← Int.cast_natCast, habs]

/-! ## Strings -/

/-- A hexadecimal digit of either case. -/
def hexNat? (c : Char) : Option Nat :=
  if c.isDigit then some (c.toNat - 0x30)
  else if 'a'.toNat ≤ c.toNat ∧ c.toNat ≤ 'f'.toNat then some (c.toNat - 'a'.toNat + 10)
  else if 'A'.toNat ≤ c.toNat ∧ c.toNat ≤ 'F'.toNat then some (c.toNat - 'A'.toNat + 10)
  else none

/-- The code unit of four hexadecimal digits. -/
def codeUnit? : Text → Option (Nat × Text)
  | a :: b :: c :: d :: t => do
    let a ← hexNat? a
    let b ← hexNat? b
    let c ← hexNat? c
    let d ← hexNat? d
    return (((a * 16 + b) * 16 + c) * 16 + d, t)
  | _ => none

/-- The second half of a surrogate pair. -/
def lowSurrogate? : Text → Option (Nat × Text)
  | '\\' :: 'u' :: t => (codeUnit? t).filter fun r => 0xdc00 ≤ r.1 ∧ r.1 < 0xe000
  | _ => none

/-- A character by its escape, of which the backslash is read. -/
def readEscape : Text → Option (Char × Text)
  | 'u' :: t => do
    let (unit, t) ← codeUnit? t
    if 0xd800 ≤ unit ∧ unit < 0xdc00 then
      match lowSurrogate? t with
      | some (low, t) => return (Char.ofNat ((unit - 0xd800) * 0x400 + (low - 0xdc00) + 0x10000), t)
      | none => return (Char.ofNat 0xfffd, t)
    else if 0xdc00 ≤ unit ∧ unit < 0xe000 then return (Char.ofNat 0xfffd, t)
    else return (Char.ofNat unit, t)
  | 'b' :: t => some (Char.ofNat 0x08, t)
  | 'f' :: t => some (Char.ofNat 0x0c, t)
  | 'n' :: t => some (Char.ofNat 0x0a, t)
  | 'r' :: t => some (Char.ofNat 0x0d, t)
  | 't' :: t => some (Char.ofNat 0x09, t)
  | c :: t => if c.toNat = 0x22 ∨ c.toNat = 0x5c ∨ c = '/' then some (c, t) else none
  | [] => none

/-- The characters up to the closing quote. -/
def readChars : Nat → Text → Option (Text × Text)
  | 0, _ | _, [] => none
  | n + 1, c :: t =>
    if c.toNat = 0x22 then some ([], t)
    else if c.toNat = 0x5c then do
      let (d, t) ← readEscape t
      let (cs, t) ← readChars n t
      return (d :: cs, t)
    else if c.toNat < 0x20 then none
    else do
      let (cs, t) ← readChars n t
      return (c :: cs, t)

theorem hexNat?_hexDigit : ∀ n < 16, hexNat? (Js.hexDigit n) = some n := by decide

theorem readChars_plain {c : Char} (hquote : c.toNat ≠ 0x22) (hslash : c.toNat ≠ 0x5c) (hcontrol : ¬c.toNat < 0x20)
    (n : Nat) (t : Text) : readChars (n + 1) (c :: t) = (readChars n t).map fun r => (c :: r.1, r.2) := by
  rw [readChars, if_neg hquote, if_neg hslash, if_neg hcontrol]
  cases readChars n t <;> rfl

theorem readChars_backslash {u t : Text} {c : Char} (h : readEscape u = some (c, t)) (n : Nat) :
    readChars (n + 1) (Char.ofNat 0x5c :: u) = (readChars n t).map fun r => (c :: r.1, r.2) := by
  rw [readChars, if_neg (by decide), if_pos (by decide), h]
  cases hrest : readChars n t <;> simp [hrest]

/-- A character is read back from the way it is written. -/
theorem readChars_escape (n : Nat) (c : Char) (t : Text) :
    readChars (n + 1) (Js.escape c ++ t) = (readChars n t).map fun r => (c :: r.1, r.2) := by
  unfold Js.escape
  simp only []
  split
  next h =>
    rcases h with h | h
    · rw [Js.eq_ofNat h]
      exact readChars_backslash rfl n
    · rw [Js.eq_ofNat h]
      exact readChars_backslash rfl n
  next hplain =>
  split
  next h => rw [Js.eq_ofNat h]; exact readChars_backslash rfl n
  next =>
  split
  next h => rw [Js.eq_ofNat h]; exact readChars_backslash rfl n
  next =>
  split
  next h => rw [Js.eq_ofNat h]; exact readChars_backslash rfl n
  next =>
  split
  next h => rw [Js.eq_ofNat h]; exact readChars_backslash rfl n
  next =>
  split
  next h => rw [Js.eq_ofNat h]; exact readChars_backslash rfl n
  next =>
  split
  next h =>
    have hzero : hexNat? '0' = some 0 := by decide
    have hvalue : ((0 * 16 + 0) * 16 + c.toNat / 16) * 16 + c.toNat % 16 = c.toNat := by omega
    have hunit : codeUnit? ('0' :: '0' :: Js.hexDigit (c.toNat / 16) :: Js.hexDigit (c.toNat % 16) :: t) =
        some (c.toNat, t) := by
      simp only [codeUnit?, hzero, hexNat?_hexDigit _ (show c.toNat / 16 < 16 by omega),
        hexNat?_hexDigit _ (show c.toNat % 16 < 16 by omega), Option.bind_eq_bind, Option.bind_some, hvalue]
      rfl
    refine readChars_backslash ?_ n
    have hhigh : ¬(0xd800 ≤ c.toNat ∧ c.toNat < 0xdc00) := by omega
    have hlow : ¬(0xdc00 ≤ c.toNat ∧ c.toNat < 0xe000) := by omega
    show readEscape ('u' :: '0' :: '0' :: Js.hexDigit (c.toNat / 16) :: Js.hexDigit (c.toNat % 16) :: t) = some (c, t)
    simp only [readEscape, hunit, Option.bind_eq_bind, Option.bind_some, if_neg hhigh, if_neg hlow, Char.ofNat_toNat]
    rfl
  next hcontrol =>
    exact readChars_plain (fun h => hplain (Or.inl h)) (fun h => hplain (Or.inr h)) hcontrol n t

/-- **A string is read back up to its closing quote.** -/
theorem readChars_escaped {s t : Text} {n : Nat} (hn : s.length < n) :
    readChars n (s.flatMap Js.escape ++ Char.ofNat 0x22 :: t) = some (s, t) := by
  induction s generalizing n with
  | nil =>
    cases n with
    | zero => exact absurd hn (Nat.not_lt_zero _)
    | succ n => rfl
  | cons c s ih =>
    cases n with
    | zero => exact absurd hn (Nat.not_lt_zero _)
    | succ n =>
      rw [List.flatMap_cons, List.append_assoc, readChars_escape, ih (Nat.lt_of_succ_lt_succ hn)]
      rfl

/-! ## Values -/

def isJsonSpace (c : Char) : Bool := c == ' ' || c == '\n' || c == '\r' || c == '\t'

def skipSpace (t : Text) : Text := t.dropWhile isJsonSpace

namespace Json

/-- A word of three, or a number. -/
def readPlain (t : Text) : Option (Json × Text) :=
  if Text.startsWith t "null".toList then some (null, t.drop 4)
  else if Text.startsWith t "true".toList then some (bool true, t.drop 4)
  else if Text.startsWith t "false".toList then some (bool false, t.drop 5)
  else
    let digits := t.takeWhile isNumberChar
    if h : digits ≠ [] ∧ isNumberText digits = true then
      some (num ⟨digits, h.1, List.all_takeWhile⟩, t.dropWhile isNumberChar)
    else none

/-- A key and the colon behind it. -/
def readKey (n : Nat) (t : Text) : Option (Text × Text) :=
  match skipSpace t with
  | '"' :: t => do
    let (key, t) ← readChars n t
    match skipSpace t with
    | ':' :: t => return (key, t)
    | _ => none
  | _ => none

mutual

def readValue : Nat → Text → Option (Json × Text)
  | 0, _ => none
  | n + 1, t =>
    match skipSpace t with
    | '"' :: t => (readChars n t).map fun r => (str r.1, r.2)
    | '[' :: t =>
      match skipSpace t with
      | ']' :: t => some (arr [], t)
      | _ => (readItems n t).map fun r => (arr r.1, r.2)
    | '\x7b' :: t =>
      match skipSpace t with
      | '\x7d' :: t => some (obj [], t)
      | _ => (readEntries n t).map fun r => (obj r.1, r.2)
    | t => readPlain t

def readItems : Nat → Text → Option (List Json × Text)
  | 0, _ => none
  | n + 1, t => do
    let (v, t) ← readValue n t
    match skipSpace t with
    | ',' :: t =>
      let (rest, t) ← readItems n t
      return (v :: rest, t)
    | ']' :: t => return ([v], t)
    | _ => none

def readEntries : Nat → Text → Option (List (Text × Json) × Text)
  | 0, _ => none
  | n + 1, t => do
    let (key, t) ← readKey n t
    let (v, t) ← readValue n t
    match skipSpace t with
    | ',' :: t =>
      let (rest, t) ← readEntries n t
      return ((key, v) :: rest, t)
    | '\x7d' :: t => return ([(key, v)], t)
    | _ => none

end

/-- `JSON.parse`. -/
def parse (t : Text) : Option Json :=
  match readValue (t.length + 1) t with
  | some (v, rest) => if skipSpace rest = [] then some v else none
  | none => none

/-! ## White space between the tokens -/

end Json

/-- What stands between the tokens of a value: before each item or entry and behind the last one, by how deep they are,
and behind each colon. -/
structure Layout where
  gap : Nat → Text
  space : Text
  gap_blank : ∀ d, ∀ c ∈ gap d, isJsonSpace c = true
  space_blank : ∀ c ∈ space, isJsonSpace c = true

/-- Nothing, as `JSON.stringify(v)` has it. -/
def Layout.compact : Layout where
  gap := fun _ => []
  space := []
  gap_blank := fun _ c hc => by cases hc
  space_blank := fun c hc => by cases hc

/-- New lines, each two spaces deeper, as `JSON.stringify(v, null, 2)` has them. -/
def Layout.indented : Layout where
  gap := fun d => '\n' :: List.replicate (2 * d) ' '
  space := [' ']
  gap_blank := fun d c hc => by
    rcases List.mem_cons.1 hc with rfl | hc
    · rfl
    · rw [List.eq_of_mem_replicate hc]
      rfl
  space_blank := fun c hc => by
    rw [List.mem_singleton.1 hc]
    rfl

namespace Json

mutual

def lay (l : Layout) : Nat → Json → Text
  | _, null => "null".toList
  | _, bool true => "true".toList
  | _, bool false => "false".toList
  | _, num n => n.text
  | _, str t => Js.quote (String.ofList t)
  | d, arr items => '[' :: layItems l d items ++ [']']
  | d, obj entries => '\x7b' :: layEntries l d entries ++ ['\x7d']

def layItems (l : Layout) : Nat → List Json → Text
  | _, [] => []
  | d, v :: rest => l.gap (d + 1) ++ (lay l (d + 1) v ++ layMoreItems l d rest)

def layMoreItems (l : Layout) : Nat → List Json → Text
  | d, [] => l.gap d
  | d, v :: rest => ',' :: (l.gap (d + 1) ++ (lay l (d + 1) v ++ layMoreItems l d rest))

def layEntries (l : Layout) : Nat → List (Text × Json) → Text
  | _, [] => []
  | d, (key, v) :: rest =>
    l.gap (d + 1) ++ (Js.quote (String.ofList key) ++ ':' :: (l.space ++ (lay l (d + 1) v ++ layMoreEntries l d rest)))

def layMoreEntries (l : Layout) : Nat → List (Text × Json) → Text
  | d, [] => l.gap d
  | d, (key, v) :: rest =>
    ',' :: (l.gap (d + 1) ++ (Js.quote (String.ofList key) ++ ':' :: (l.space ++ (lay l (d + 1) v ++ layMoreEntries l d rest))))

end

mutual

theorem lay_compact : ∀ (v : Json) (d : Nat), lay .compact d v = v.print
  | null, _ => rfl
  | bool true, _ => rfl
  | bool false, _ => rfl
  | num _, _ => rfl
  | str _, _ => rfl
  | arr items, d => by rw [lay, print, layItems_compact items d]
  | obj entries, d => by rw [lay, print, layEntries_compact entries d]

theorem layItems_compact : ∀ (l : List Json) (d : Nat), layItems .compact d l = printItems l
  | [], _ => rfl
  | v :: rest, d => by
    rw [layItems, printItems, lay_compact v, layMoreItems_compact rest]
    rfl

theorem layMoreItems_compact : ∀ (l : List Json) (d : Nat), layMoreItems .compact d l = printMoreItems l
  | [], _ => rfl
  | v :: rest, d => by
    rw [layMoreItems, printMoreItems, lay_compact v, layMoreItems_compact rest]
    rfl

theorem layEntries_compact : ∀ (l : List (Text × Json)) (d : Nat), layEntries .compact d l = printEntries l
  | [], _ => rfl
  | (key, v) :: rest, d => by
    rw [layEntries, printEntries, lay_compact v, layMoreEntries_compact rest]
    simp only [Layout.compact, List.nil_append, List.append_assoc, List.cons_append]

theorem layMoreEntries_compact : ∀ (l : List (Text × Json)) (d : Nat), layMoreEntries .compact d l = printMoreEntries l
  | [], _ => rfl
  | (key, v) :: rest, d => by
    rw [layMoreEntries, printMoreEntries, lay_compact v, layMoreEntries_compact rest]
    simp only [Layout.compact, List.nil_append, List.append_assoc, List.cons_append]

end

theorem lay_head (l : Layout) (d : Nat) (v : Json) : ∃ c t, lay l d v = c :: t ∧ kindOf c = v.kind := by
  cases v with
  | arr items => exact ⟨_, _, rfl, show kindOf '[' = 5 by decide⟩
  | obj entries => exact ⟨_, _, rfl, show kindOf '\x7b' = 6 by decide⟩
  | null => exact print_head null
  | bool b =>
    cases b
    · exact print_head (bool false)
    · exact print_head (bool true)
  | num n => exact print_head (num n)
  | str t => exact print_head (str t)

/-! ## A value is read back -/

mutual

/-- The numbers are written as the grammar has them. -/
def Grammatical : Json → Prop
  | num n => isNumberText n.text = true
  | arr items => GrammaticalItems items
  | obj entries => GrammaticalEntries entries
  | _ => True

def GrammaticalItems : List Json → Prop
  | [] => True
  | v :: rest => v.Grammatical ∧ GrammaticalItems rest

def GrammaticalEntries : List (Text × Json) → Prop
  | [] => True
  | (_, v) :: rest => v.Grammatical ∧ GrammaticalEntries rest

end

theorem kindOf_space {c : Char} (h : isJsonSpace c = true) : kindOf c = 7 := by
  unfold isJsonSpace at h
  simp only [Bool.or_eq_true, beq_iff_eq] at h
  rcases h with ((rfl | rfl) | rfl) | rfl <;> decide

theorem skipSpace_of_head {t : Text} (h : ∀ c ∈ t.head?, kindOf c ≠ 7) : skipSpace t = t := by
  cases t with
  | nil => rfl
  | cons c t =>
    refine List.dropWhile_cons_of_neg fun hc => ?_
    exact h c rfl (kindOf_space hc)

theorem skipSpace_append {w : Text} (hw : ∀ c ∈ w, isJsonSpace c = true) (t : Text) : skipSpace (w ++ t) = skipSpace t :=
  List.dropWhile_append_of_pos hw

theorem skipSpace_lay (l : Layout) (d : Nat) (v : Json) (s : Text) : skipSpace (lay l d v ++ s) = lay l d v ++ s := by
  refine skipSpace_of_head fun c hc h => ?_
  obtain ⟨e, t, hv, he⟩ := lay_head l d v
  rw [hv] at hc
  obtain rfl : e = c := Option.some.inj hc
  have hle := kind_le v
  omega

theorem lay_length_pos (l : Layout) (d : Nat) (v : Json) : 0 < (lay l d v).length := by
  obtain ⟨c, t, hv, _⟩ := lay_head l d v
  rw [hv]
  exact Nat.succ_pos _

theorem lay_ne_cons {l : Layout} {d : Nat} {v : Json} {c : Char} {s t : Text} (hc : kindOf c = 7) :
    lay l d v ++ s ≠ c :: t := by
  intro h
  obtain ⟨e, u, hv, he⟩ := lay_head l d v
  rw [hv] at h
  have hle := kind_le v
  rw [← he, (List.cons.inj h).1, hc] at hle
  omega

/-- White space does not go on with a number. -/
theorem ends_blank {w t : Text} (hw : ∀ c ∈ w, isJsonSpace c = true) (ht : Ends t) : Ends (w ++ t) := by
  cases w with
  | nil => exact ht
  | cons c w =>
    intro d hd
    obtain rfl : c = d := Option.some.inj hd
    have hspace := kindOf_space (hw c List.mem_cons_self)
    unfold kindOf at hspace
    split at hspace
    next => exact absurd hspace (by decide)
    next h => exact Bool.eq_false_iff.2 h

theorem ends_layMoreItems (l : Layout) (d : Nat) (items : List Json) (s : Text) :
    Ends (layMoreItems l d items ++ ']' :: s) := by
  cases items with
  | nil => exact ends_blank (l.gap_blank d) (by rintro c ⟨⟩; decide)
  | cons v rest => rw [layMoreItems]; rintro c ⟨⟩; decide

theorem ends_layMoreEntries (l : Layout) (d : Nat) (entries : List (Text × Json)) (s : Text) :
    Ends (layMoreEntries l d entries ++ '\x7d' :: s) := by
  cases entries with
  | nil => exact ends_blank (l.gap_blank d) (by rintro c ⟨⟩; decide)
  | cons e rest => rw [layMoreEntries]; rintro c ⟨⟩; decide

/-- White space in front of a value is skipped. -/
theorem readValue_skip {w : Text} (hw : ∀ c ∈ w, isJsonSpace c = true) (n : Nat) (t : Text) :
    readValue n (w ++ t) = readValue n t := by
  cases n with
  | zero => rw [readValue, readValue]
  | succ n => rw [readValue, readValue, skipSpace_append hw]

theorem readItems_skip {w : Text} (hw : ∀ c ∈ w, isJsonSpace c = true) (n : Nat) (t : Text) :
    readItems n (w ++ t) = readItems n t := by
  cases n with
  | zero => rw [readItems, readItems]
  | succ n => rw [readItems, readItems, readValue_skip hw]

theorem readKey_skip {w : Text} (hw : ∀ c ∈ w, isJsonSpace c = true) (n : Nat) (t : Text) :
    readKey n (w ++ t) = readKey n t := by
  unfold readKey
  rw [skipSpace_append hw]

theorem readEntries_skip {w : Text} (hw : ∀ c ∈ w, isJsonSpace c = true) (n : Nat) (t : Text) :
    readEntries n (w ++ t) = readEntries n t := by
  cases n with
  | zero => rw [readEntries, readEntries]
  | succ n => rw [readEntries, readEntries, readKey_skip hw]

theorem readValue_plain {t : Text} (h : ∀ c ∈ t.head?, kindOf c < 4) (n : Nat) : readValue (n + 1) t = readPlain t := by
  have hskip : skipSpace t = t := skipSpace_of_head fun c hc => by have := h c hc; omega
  rw [readValue, hskip]
  split
  next => exact absurd (h _ rfl) (by decide)
  next => exact absurd (h _ rfl) (by decide)
  next => exact absurd (h _ rfl) (by decide)
  next => rfl

theorem readPlain_number {m : JsonNumber} (hm : isNumberText m.text = true) {s : Text} (hs : Ends s) :
    readPlain (m.text ++ s) = some (num m, s) := by
  have hword : ∀ w : Char → Text, ∀ c : Char, isNumberChar c = false → Text.startsWith (m.text ++ s) (c :: w c) = false := by
    intro w c hc
    obtain ⟨d, t, htext⟩ := List.exists_cons_of_ne_nil m.nonempty
    have hd : isNumberChar d = true := List.all_eq_true.1 m.chars d (by rw [htext]; exact List.mem_cons_self)
    rw [htext]
    refine Bool.eq_false_iff.2 fun h => ?_
    obtain ⟨u, hu⟩ := Text.startsWith_iff.1 h
    rw [(List.cons.inj hu).1, hd] at hc
    cases hc
  have htake := takeWhile_number m.chars hs
  have hdrop : (m.text ++ s).dropWhile isNumberChar = s := by
    have hall := List.takeWhile_append_dropWhile (p := isNumberChar) (l := m.text ++ s)
    rw [htake] at hall
    exact List.append_cancel_left hall
  unfold readPlain
  rw [if_neg (by rw [show "null".toList = 'n' :: "ull".toList from rfl, hword (fun _ => _) 'n' (by decide)]; decide),
    if_neg (by rw [show "true".toList = 't' :: "rue".toList from rfl, hword (fun _ => _) 't' (by decide)]; decide),
    if_neg (by rw [show "false".toList = 'f' :: "alse".toList from rfl, hword (fun _ => _) 'f' (by decide)]; decide)]
  simp only [htake, hdrop]
  rw [dif_pos ⟨m.nonempty, hm⟩]

theorem quote_eq (t : Text) (s : Text) :
    Js.quote (String.ofList t) ++ s = '"' :: (t.flatMap Js.escape ++ Char.ofNat 0x22 :: s) := by
  unfold Js.quote
  simp only [String.toList_ofList, List.cons_append, List.append_assoc, List.nil_append]

theorem length_lt_quote (t : Text) : t.length + 1 < (Js.quote (String.ofList t)).length := by
  have hle : t.length ≤ (t.flatMap Js.escape).length := by
    induction t with
    | nil => exact Nat.le_refl _
    | cons c t ih =>
      have hpos : 0 < (Js.escape c).length := List.length_pos_of_ne_nil (Js.escape_ne_nil c)
      rw [List.flatMap_cons, List.length_append, List.length_cons]
      omega
  have hquote := congrArg List.length (quote_eq t [])
  simp only [List.append_nil, List.length_cons, List.length_append, List.length_nil] at hquote
  omega

theorem readKey_quote {key : Text} {n : Nat} (hn : key.length < n) (s : Text) :
    readKey n (Js.quote (String.ofList key) ++ ':' :: s) = some (key, s) := by
  have hcolon : skipSpace (':' :: s) = ':' :: s := rfl
  rw [quote_eq, readKey]
  have hskip : skipSpace ('"' :: (key.flatMap Js.escape ++ Char.ofNat 0x22 :: ':' :: s)) =
      '"' :: (key.flatMap Js.escape ++ Char.ofNat 0x22 :: ':' :: s) := rfl
  simp only [hskip, readChars_escaped hn, Option.bind_eq_bind, Option.bind_some, hcolon]
  rfl

mutual

/-- **A value is read back**, whatever stands behind it. -/
theorem readValue_lay (l : Layout) : ∀ (v : Json) {d n : Nat} {s : Text}, v.Grammatical → (lay l d v).length < n → Ends s →
    readValue n (lay l d v ++ s) = some (v, s)
  | null, d, n, s, _, hn, _ => by
    obtain ⟨n, rfl⟩ := Nat.exists_eq_succ_of_ne_zero (Nat.ne_zero_of_lt hn)
    rw [lay, readValue_plain (by rintro c ⟨⟩; decide)]
    rfl
  | bool b, d, n, s, _, hn, _ => by
    obtain ⟨n, rfl⟩ := Nat.exists_eq_succ_of_ne_zero (Nat.ne_zero_of_lt hn)
    cases b
    · rw [lay, readValue_plain (by rintro c ⟨⟩; decide)]
      rfl
    · rw [lay, readValue_plain (by rintro c ⟨⟩; decide)]
      rfl
  | num m, d, n, s, hm, hn, hs => by
    obtain ⟨n, rfl⟩ := Nat.exists_eq_succ_of_ne_zero (Nat.ne_zero_of_lt hn)
    have hhead : ∀ c ∈ (m.text ++ s).head?, kindOf c < 4 := by
      intro c hc
      obtain ⟨e, t, htext⟩ := List.exists_cons_of_ne_nil m.nonempty
      rw [htext] at hc
      obtain rfl : e = c := Option.some.inj hc
      have he : isNumberChar e = true := List.all_eq_true.1 m.chars e (by rw [htext]; exact List.mem_cons_self)
      unfold kindOf
      rw [if_pos he]
      decide
    rw [lay, readValue_plain hhead]
    exact readPlain_number hm hs
  | str t, d, n, s, _, hn, _ => by
    obtain ⟨n, rfl⟩ := Nat.exists_eq_succ_of_ne_zero (Nat.ne_zero_of_lt hn)
    have hlen : t.length < n := by
      have := length_lt_quote t
      rw [lay] at hn
      omega
    rw [lay, quote_eq, readValue]
    show (readChars n (t.flatMap Js.escape ++ Char.ofNat 0x22 :: s)).map (fun r => (str r.1, r.2)) = some (str t, s)
    rw [readChars_escaped hlen]
    rfl
  | arr items, d, n, s, hv, hn, _ => by
    obtain ⟨n, rfl⟩ := Nat.exists_eq_succ_of_ne_zero (Nat.ne_zero_of_lt hn)
    have htext : lay l d (arr items) ++ s = '[' :: (layItems l d items ++ ']' :: s) := by
      rw [lay, List.cons_append, List.cons_append, List.append_assoc]
      rfl
    have hlen : (layItems l d items).length + 1 < n := by
      have := congrArg List.length htext
      simp only [List.length_append, List.length_cons] at this
      omega
    rw [htext, readValue]
    cases items with
    | nil => rfl
    | cons v rest =>
      have hread := readItems_lay l (v :: rest) (d := d) (n := n) (s := s) (List.cons_ne_nil _ _) hv hlen
      show (match skipSpace (layItems l d (v :: rest) ++ ']' :: s) with
        | ']' :: t => some (arr [], t)
        | _ => (readItems n (layItems l d (v :: rest) ++ ']' :: s)).map fun r => (arr r.1, r.2)) = some (arr (v :: rest), s)
      rw [hread]
      split
      next t ht =>
        rw [layItems, List.append_assoc, skipSpace_append (l.gap_blank _), List.append_assoc, skipSpace_lay] at ht
        exact absurd ht (lay_ne_cons (by decide))
      next => rfl
  | obj entries, d, n, s, hv, hn, _ => by
    obtain ⟨n, rfl⟩ := Nat.exists_eq_succ_of_ne_zero (Nat.ne_zero_of_lt hn)
    have htext : lay l d (obj entries) ++ s = '\x7b' :: (layEntries l d entries ++ '\x7d' :: s) := by
      rw [lay, List.cons_append, List.cons_append, List.append_assoc]
      rfl
    have hlen : (layEntries l d entries).length + 1 < n := by
      have := congrArg List.length htext
      simp only [List.length_append, List.length_cons] at this
      omega
    rw [htext, readValue]
    cases entries with
    | nil => rfl
    | cons e rest =>
      have hread := readEntries_lay l (e :: rest) (d := d) (n := n) (s := s) (List.cons_ne_nil _ _) hv hlen
      show (match skipSpace (layEntries l d (e :: rest) ++ '\x7d' :: s) with
        | '\x7d' :: t => some (obj [], t)
        | _ => (readEntries n (layEntries l d (e :: rest) ++ '\x7d' :: s)).map fun r => (obj r.1, r.2)) =
          some (obj (e :: rest), s)
      rw [hread]
      split
      next t ht =>
        rw [layEntries, List.append_assoc, skipSpace_append (l.gap_blank _), List.append_assoc, quote_eq] at ht
        cases ht
      next => rfl

theorem readItems_lay (l : Layout) : ∀ (items : List Json) {d n : Nat} {s : Text}, items ≠ [] → GrammaticalItems items →
    (layItems l d items).length + 1 < n → readItems n (layItems l d items ++ ']' :: s) = some (items, s)
  | [], _, _, _, hl, _, _ => absurd rfl hl
  | v :: rest, d, n, s, _, hv, hn => by
    obtain ⟨n, rfl⟩ := Nat.exists_eq_succ_of_ne_zero (Nat.ne_zero_of_lt hn)
    have hpos := lay_length_pos l (d + 1) v
    have hparts : (layItems l d (v :: rest)).length =
        (l.gap (d + 1)).length + ((lay l (d + 1) v).length + (layMoreItems l d rest).length) := by
      rw [layItems, List.length_append, List.length_append]
    have hread := readValue_lay l v (d := d + 1) (n := n) hv.1 (by omega) (ends_layMoreItems l d rest s)
    rw [layItems, List.append_assoc, readItems_skip (l.gap_blank _), readItems, List.append_assoc, hread]
    cases rest with
    | nil =>
      have hclose : skipSpace (layMoreItems l d [] ++ ']' :: s) = ']' :: s := by
        rw [layMoreItems, skipSpace_append (l.gap_blank _)]
        rfl
      simp only [Option.bind_eq_bind, Option.bind_some, hclose]
      rfl
    | cons w rest =>
      have hmore : layMoreItems l d (w :: rest) = ',' :: layItems l d (w :: rest) := rfl
      have hrest := readItems_lay l (w :: rest) (d := d) (n := n) (s := s) (List.cons_ne_nil _ _) hv.2
        (by rw [hmore, List.length_cons] at hparts; omega)
      show ((readItems n (layItems l d (w :: rest) ++ ']' :: s)).bind fun r => some (v :: r.1, r.2)) = _
      rw [hrest]
      rfl

theorem readEntries_lay (l : Layout) : ∀ (entries : List (Text × Json)) {d n : Nat} {s : Text}, entries ≠ [] →
    GrammaticalEntries entries → (layEntries l d entries).length + 1 < n →
    readEntries n (layEntries l d entries ++ '\x7d' :: s) = some (entries, s)
  | [], _, _, _, hl, _, _ => absurd rfl hl
  | (key, v) :: rest, d, n, s, _, hv, hn => by
    obtain ⟨n, rfl⟩ := Nat.exists_eq_succ_of_ne_zero (Nat.ne_zero_of_lt hn)
    have hpos := lay_length_pos l (d + 1) v
    have hkey := length_lt_quote key
    have htext : layEntries l d ((key, v) :: rest) ++ '\x7d' :: s = l.gap (d + 1) ++ (Js.quote (String.ofList key) ++
        ':' :: (l.space ++ (lay l (d + 1) v ++ (layMoreEntries l d rest ++ '\x7d' :: s)))) := by
      rw [layEntries]
      simp only [List.append_assoc, List.cons_append]
    have hparts : (layEntries l d ((key, v) :: rest)).length = (l.gap (d + 1)).length +
        ((Js.quote (String.ofList key)).length + 1 + (l.space.length + ((lay l (d + 1) v).length +
          (layMoreEntries l d rest).length))) := by
      have := congrArg List.length htext
      simp only [List.length_append, List.length_cons] at this
      omega
    have hread := readValue_lay l v (d := d + 1) (n := n) hv.1 (by omega) (ends_layMoreEntries l d rest s)
    rw [htext, readEntries_skip (l.gap_blank _), readEntries, readKey_quote (by omega)]
    simp only [Option.bind_eq_bind, Option.bind_some, readValue_skip l.space_blank, hread]
    cases rest with
    | nil =>
      have hclose : skipSpace (layMoreEntries l d [] ++ '\x7d' :: s) = '\x7d' :: s := by
        rw [layMoreEntries, skipSpace_append (l.gap_blank _)]
        rfl
      simp only [hclose]
      rfl
    | cons e rest =>
      have hmore : layMoreEntries l d (e :: rest) = ',' :: layEntries l d (e :: rest) := rfl
      have hrest := readEntries_lay l (e :: rest) (d := d) (n := n) (s := s) (List.cons_ne_nil _ _) hv.2
        (by rw [hmore, List.length_cons] at hparts; omega)
      show ((readEntries n (layEntries l d (e :: rest) ++ '\x7d' :: s)).bind fun r => some ((key, v) :: r.1, r.2)) = _
      rw [hrest]
      rfl

end

/-- **`JSON.parse` reads a value back**, however it is laid out. -/
theorem parse_lay (l : Layout) {v : Json} (hv : v.Grammatical) (d : Nat) : parse (lay l d v) = some v := by
  have hends : Ends [] := fun c hc => by cases hc
  have hread := readValue_lay l v (d := d) (n := (lay l d v).length + 1) hv (Nat.lt_succ_self _) hends
  rw [List.append_nil] at hread
  unfold parse
  rw [hread]
  rfl

/-- **`JSON.parse` reads back what `JSON.stringify` writes.** -/
theorem parse_print {v : Json} (hv : v.Grammatical) : parse v.print = some v := by
  rw [← lay_compact v 0]
  exact parse_lay .compact hv 0

/-! ## Objects -/

/-- The fields that are defined: `JSON.stringify` leaves out the others. -/
def defined (fields : List (Text × Option Json)) : List (Text × Json) :=
  fields.filterMap fun f => f.2.map fun v => (f.1, v)

def object (fields : List (Text × Option Json)) : Json := obj (defined fields)

/-- `v[key]`: of two fields under one key the last one counts. -/
def field? (v : Json) (key : Text) : Option Json :=
  match v with
  | obj entries => (entries.reverse.find? (·.1 = key)).map (·.2)
  | _ => none

theorem mem_keys_of_mem_defined {fields : List (Text × Option Json)} {e : Text × Json} (h : e ∈ defined fields) :
    e.1 ∈ fields.map (·.1) := by
  obtain ⟨f, hf, he⟩ := List.mem_filterMap.1 h
  obtain ⟨v, _, rfl⟩ := Option.map_eq_some_iff.1 he
  exact List.mem_map_of_mem hf

/-- **Objects with the same keys are told apart by their fields**, defined or not. -/
theorem object_inj {fields others : List (Text × Option Json)} (h : object fields = object others)
    (hkeys : fields.map (·.1) = others.map (·.1)) (hnodup : (fields.map (·.1)).Nodup) : fields = others := by
  have hdefined : defined fields = defined others := Json.obj.inj h
  clear h
  induction fields generalizing others with
  | nil => exact (List.map_eq_nil_iff.1 hkeys.symm).symm
  | cons f fields ih =>
    cases others with
    | nil => cases hkeys
    | cons g others =>
      obtain ⟨key, a⟩ := f
      obtain ⟨_, b⟩ := g
      obtain ⟨rfl, hrest⟩ := List.cons.inj hkeys
      obtain ⟨hnew, hfields⟩ := List.nodup_cons.1 hnodup
      -- A field that one of them leaves out is nowhere else either.
      cases a with
      | none =>
        cases b with
        | none => rw [ih hrest hfields hdefined]
        | some w =>
          have hmem : (key, w) ∈ defined fields := by
            rw [show defined fields = defined ((key, some w) :: others) from hdefined]
            exact List.mem_cons_self
          exact absurd (mem_keys_of_mem_defined hmem) hnew
      | some v =>
        cases b with
        | none =>
          have hmem : (key, v) ∈ defined others := by
            rw [show defined others = defined ((key, some v) :: fields) from hdefined.symm]
            exact List.mem_cons_self
          rw [hrest] at hnew
          exact absurd (mem_keys_of_mem_defined hmem) hnew
        | some w =>
          obtain ⟨hhead, htail⟩ := List.cons.inj (show (key, v) :: defined fields = (key, w) :: defined others from hdefined)
          rw [(Prod.mk.inj hhead).2, ih hrest hfields htail]

theorem ofInt_inj {m n : Int} (h : num (.ofInt m) = num (.ofInt n)) : m = n := by
  have hvalue := congrArg JsonNumber.value (Json.num.inj h)
  rw [JsonNumber.value_ofInt, JsonNumber.value_ofInt] at hvalue
  exact_mod_cast hvalue

end Json

end Zenod
