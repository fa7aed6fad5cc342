/-
The string and number operations of JavaScript that a program's checks rest
on, over Lean's `String` (a sequence of Unicode scalar values): `trim`,
`length` (which counts UTF-16 code units), `Number.isSafeInteger` on integers,
the comparison `localeCompare` makes of identifiers, and `JSON.stringify` of a
string.

`quote_append_inj`: a quoted string ends where its closing quote stands, so
a text that starts with one tells which string it was.
-/
import Mathlib.Data.List.DropRight
import Mathlib.Data.String.Basic
import Mathlib.Algebra.Ring.Nat

namespace Zenod.Js

/-- WhiteSpace and LineTerminator, what `String.prototype.trim` strips. -/
def isSpace (c : Char) : Bool :=
  (0x09 ≤ c.toNat && c.toNat ≤ 0x0d) || c.toNat == 0x20 || c.toNat == 0xa0 || c.toNat == 0x1680 ||
    (0x2000 ≤ c.toNat && c.toNat ≤ 0x200a) || c.toNat == 0x2028 || c.toNat == 0x2029 ||
    c.toNat == 0x202f || c.toNat == 0x205f || c.toNat == 0x3000 || c.toNat == 0xfeff

/-- Strip from both ends. -/
def trimChars (cs : List Char) : List Char :=
  ((cs.dropWhile isSpace).reverse.dropWhile isSpace).reverse

def trim (s : String) : String := String.ofList (trimChars s.toList)

/-- `s.length`: a scalar value outside the BMP takes two code units. -/
def length (s : String) : Nat :=
  (s.toList.map fun c => if c.toNat < 0x10000 then 1 else 2).sum

/-- `Number.MAX_SAFE_INTEGER`. -/
def maxSafeInteger : Int := 9007199254740991

def isSafeInteger (n : Int) : Bool := -maxSafeInteger ≤ n && n ≤ maxSafeInteger

/-- `left.localeCompare(right) <= 0` for identifiers of ASCII letters: by the
letters first, whatever their case, and lower case first among equals. -/
def localeLe (left right : String) : Bool :=
  let l := left.toList.map Char.toLower
  let r := right.toList.map Char.toLower
  decide (l < r) || (l == r && decide (right.toList ≤ left.toList))

/-! ## Trimming -/

/-- A list that keeps its head under `dropWhile` keeps every prefix that has the head. -/
theorem dropWhile_eq_self_of_prefix {p : Char → Bool} {cs ds : List Char}
    (h : (cs ++ ds).dropWhile p = cs ++ ds) : cs.dropWhile p = cs := by
  cases cs with
  | nil => rfl
  | cons c cs =>
    by_cases hc : p c = true
    · exfalso
      simp only [List.cons_append, List.dropWhile_cons, hc, if_true] at h
      have := congrArg List.length h
      have hle := (List.dropWhile_sublist p (l := cs ++ ds)).length_le
      simp only [List.length_cons] at this
      omega
    · simp [hc]

theorem trimChars_idem (cs : List Char) : trimChars (trimChars cs) = trimChars cs := by
  simp only [trimChars]
  generalize hd : cs.dropWhile isSpace = ds
  have hds : ds.dropWhile isSpace = ds := by rw [← hd]; exact List.dropWhile_idempotent _ _
  -- What the second pass strips is a suffix, so the head stays a non-space.
  obtain ⟨es, hes⟩ : ∃ es, ds = (ds.reverse.dropWhile isSpace).reverse ++ es := by
    obtain ⟨es, h⟩ := List.dropWhile_suffix isSpace (l := ds.reverse)
    refine ⟨es.reverse, ?_⟩
    rw [← List.reverse_append, h, List.reverse_reverse]
  have hhead : ((ds.reverse.dropWhile isSpace).reverse).dropWhile isSpace =
      (ds.reverse.dropWhile isSpace).reverse :=
    dropWhile_eq_self_of_prefix (by rw [← hes]; exact hds)
  rw [hhead, List.reverse_reverse, List.dropWhile_idempotent]

theorem trim_idem (s : String) : trim (trim s) = trim s := by
  simp [trim, trimChars_idem]

/-! ## JSON.stringify of a string -/

def hexDigit (n : Nat) : Char :=
  if n < 10 then Char.ofNat (0x30 + n) else Char.ofNat (0x61 + (n - 10))

/-- How one character is written between the quotes. -/
def escape (c : Char) : List Char :=
  let backslash := Char.ofNat 0x5c
  if c.toNat = 0x22 ∨ c.toNat = 0x5c then [backslash, c]
  else if c.toNat = 0x08 then [backslash, 'b']
  else if c.toNat = 0x0c then [backslash, 'f']
  else if c.toNat = 0x0a then [backslash, 'n']
  else if c.toNat = 0x0d then [backslash, 'r']
  else if c.toNat = 0x09 then [backslash, 't']
  else if c.toNat < 0x20 then [backslash, 'u', '0', '0', hexDigit (c.toNat / 16), hexDigit (c.toNat % 16)]
  else [c]

/-- `JSON.stringify` of a string, as characters. -/
def quote (s : String) : List Char :=
  Char.ofNat 0x22 :: s.toList.flatMap escape ++ [Char.ofNat 0x22]

/-! ### Reading a quoted string back -/

def hexValue (c : Char) : Nat := if c.toNat < 0x61 then c.toNat - 0x30 else c.toNat - 0x61 + 10

theorem hexValue_hexDigit : ∀ n < 16, hexValue (hexDigit n) = n := by decide

/-- The character that is written first, and what stands behind it. -/
def unescape : List Char → Option (Char × List Char)
  | [] => none
  | c :: t =>
    if c.toNat ≠ 0x5c then some (c, t)
    else
      match t with
      | 'b' :: t => some (Char.ofNat 0x08, t)
      | 'f' :: t => some (Char.ofNat 0x0c, t)
      | 'n' :: t => some (Char.ofNat 0x0a, t)
      | 'r' :: t => some (Char.ofNat 0x0d, t)
      | 't' :: t => some (Char.ofNat 0x09, t)
      | 'u' :: '0' :: '0' :: a :: b :: t => some (Char.ofNat (16 * hexValue a + hexValue b), t)
      | c :: t => some (c, t)
      | [] => none

theorem eq_ofNat {c : Char} {n : Nat} (h : c.toNat = n) : c = Char.ofNat n := by rw [← h, Char.ofNat_toNat]

theorem unescape_escape (c : Char) (t : List Char) : unescape (escape c ++ t) = some (c, t) := by
  unfold escape
  simp only []
  split
  next h =>
    rcases h with h | h
    · rw [eq_ofNat h]
      rfl
    · rw [eq_ofNat h]
      rfl
  next hplain =>
  split
  next h => rw [eq_ofNat h]; rfl
  next =>
  split
  next h => rw [eq_ofNat h]; rfl
  next =>
  split
  next h => rw [eq_ofNat h]; rfl
  next =>
  split
  next h => rw [eq_ofNat h]; rfl
  next =>
  split
  next h => rw [eq_ofNat h]; rfl
  next =>
  split
  next h =>
    show some (Char.ofNat (16 * hexValue (hexDigit (c.toNat / 16)) + hexValue (hexDigit (c.toNat % 16))), t) = some (c, t)
    rw [hexValue_hexDigit _ (by omega), hexValue_hexDigit _ (by omega), Nat.div_add_mod, Char.ofNat_toNat]
  next =>
    show unescape (c :: t) = some (c, t)
    have hslash : c.toNat ≠ 0x5c := fun h => hplain (Or.inr h)
    exact if_pos hslash

theorem escape_append_inj {c d : Char} {s t : List Char} (h : escape c ++ s = escape d ++ t) : c = d ∧ s = t := by
  have hread : some (c, s) = some (d, t) := by rw [← unescape_escape, h, unescape_escape]
  exact Prod.mk.inj (Option.some.inj hread)

theorem escape_head {c x : Char} {t : List Char} (h : escape c = x :: t) : x ≠ Char.ofNat 0x22 := by
  rintro rfl
  unfold escape at h
  simp only [] at h
  split at h
  next => exact absurd (List.cons.inj h).1 (by decide)
  next hplain =>
    repeat' (split at h; · exact absurd (List.cons.inj h).1 (by decide))
    exact hplain (Or.inl (by rw [(List.cons.inj h).1]; decide))

theorem escape_ne_nil (c : Char) : escape c ≠ [] := by
  intro h
  have hread := unescape_escape c []
  rw [h] at hread
  cases hread

/-- **A quoted string ends at its closing quote.** -/
theorem quote_append_inj {a b : String} {s t : List Char} (h : quote a ++ s = quote b ++ t) : a = b ∧ s = t := by
  have hbody : ∀ (as bs : List Char), as.flatMap escape ++ Char.ofNat 0x22 :: s = bs.flatMap escape ++ Char.ofNat 0x22 :: t →
      as = bs ∧ s = t := by
    have hends : ∀ (c : Char) (cs u v : List Char), Char.ofNat 0x22 :: u ≠ (c :: cs).flatMap escape ++ v := by
      intro c cs u v heq
      rw [List.flatMap_cons] at heq
      cases hc : escape c with
      | nil => exact escape_ne_nil c hc
      | cons x xs =>
        rw [hc] at heq
        exact escape_head hc (List.cons.inj heq).1.symm
    intro as
    induction as with
    | nil =>
      intro bs heq
      cases bs with
      | nil => exact ⟨rfl, (List.cons.inj heq).2⟩
      | cons d ds => exact absurd heq (hends d ds _ _)
    | cons c cs ih =>
      intro bs heq
      cases bs with
      | nil => exact absurd heq.symm (hends c cs _ _)
      | cons d ds =>
        rw [List.flatMap_cons, List.flatMap_cons, List.append_assoc, List.append_assoc] at heq
        obtain ⟨rfl, hrest⟩ := escape_append_inj heq
        obtain ⟨rfl, hst⟩ := ih ds hrest
        exact ⟨rfl, hst⟩
  unfold quote at h
  simp only [List.cons_append, List.append_assoc, List.nil_append] at h
  obtain ⟨hchars, hst⟩ := hbody _ _ (List.cons.inj h).2
  exact ⟨String.toList_injective hchars, hst⟩

end Zenod.Js
