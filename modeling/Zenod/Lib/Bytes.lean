/-
Octets, as natural numbers: the UTF-8 form of a text and the base64url form of
octets, as a buffer of JavaScript converts them.

`decodeUtf8_encode` and `fromBase64_toBase64`: what is written is read back.
`length_toBase64`: how long it gets.
-/
import Zenod.Lib.Text

namespace Zenod.Bytes

/-! ## UTF-8 -/

/-- The octets of a character. -/
def utf8Char (c : Char) : List Nat :=
  let n := c.toNat
  if n < 0x80 then [n]
  else if n < 0x800 then [0xc0 + n / 64, 0x80 + n % 64]
  else if n < 0x10000 then [0xe0 + n / 4096, 0x80 + n / 64 % 64, 0x80 + n % 64]
  else [0xf0 + n / 262144, 0x80 + n / 4096 % 64, 0x80 + n / 64 % 64, 0x80 + n % 64]

/-- `Buffer.from(t)`. -/
def utf8 (t : Text) : List Nat := t.flatMap utf8Char

/-- Between octets: how many are owed, the bits there are, and where the next octet must lie. -/
structure Utf8State where
  owed : Nat := 0
  bits : Nat := 0
  lower : Nat := 0x80
  upper : Nat := 0xbf

def replacement : Char := Char.ofNat 0xfffd

/-- The first octet of a character. -/
def utf8First (b : Nat) : Utf8State × Text :=
  if b < 0x80 then ({}, [Char.ofNat b])
  else if 0xc2 ≤ b ∧ b ≤ 0xdf then ({ owed := 1, bits := b - 0xc0 }, [])
  else if 0xe0 ≤ b ∧ b ≤ 0xef then
    ({ owed := 2, bits := b - 0xe0, lower := if b = 0xe0 then 0xa0 else 0x80, upper := if b = 0xed then 0x9f else 0xbf }, [])
  else if 0xf0 ≤ b ∧ b ≤ 0xf4 then
    ({ owed := 3, bits := b - 0xf0, lower := if b = 0xf0 then 0x90 else 0x80, upper := if b = 0xf4 then 0x8f else 0xbf }, [])
  else ({}, [replacement])

/-- One more octet: one that cannot follow starts a character of its own. -/
def utf8Step (s : Utf8State) (b : Nat) : Utf8State × Text :=
  if s.owed = 0 then utf8First b
  else if s.lower ≤ b ∧ b ≤ s.upper then
    let bits := 64 * s.bits + (b - 0x80)
    if s.owed = 1 then ({}, [Char.ofNat bits]) else ({ owed := s.owed - 1, bits := bits }, [])
  else ((utf8First b).1, replacement :: (utf8First b).2)

def utf8Decode (s : Utf8State) : List Nat → Text
  | [] => if s.owed = 0 then [] else [replacement]
  | b :: bs => (utf8Step s b).2 ++ utf8Decode (utf8Step s b).1 bs

/-- `buffer.toString("utf8")`. -/
def decodeUtf8 (bs : List Nat) : Text := utf8Decode {} bs

theorem utf8Decode_first {b : Nat} {s : Utf8State} (h : utf8First b = (s, [])) (bs : List Nat) :
    utf8Decode {} (b :: bs) = utf8Decode s bs := by
  have hstep : utf8Step {} b = (s, []) := h
  rw [utf8Decode, hstep, List.nil_append]

theorem utf8Decode_more {n bits lower upper k : Nat} (hk : lower ≤ 0x80 + k ∧ 0x80 + k ≤ upper) (bs : List Nat) :
    utf8Decode { owed := n + 2, bits := bits, lower := lower, upper := upper } ((0x80 + k) :: bs) =
      utf8Decode { owed := n + 1, bits := 64 * bits + k } bs := by
  have hstep : utf8Step { owed := n + 2, bits := bits, lower := lower, upper := upper } (0x80 + k) =
      ({ owed := n + 1, bits := 64 * bits + k }, []) := by
    unfold utf8Step
    rw [if_neg (Nat.succ_ne_zero _), if_pos hk, Nat.add_sub_cancel_left]
    exact if_neg (show ¬n + 2 = 1 by omega)
  rw [utf8Decode, hstep, List.nil_append]

theorem utf8Decode_last {bits k : Nat} (hk : k < 64) (bs : List Nat) :
    utf8Decode { owed := 1, bits := bits } ((0x80 + k) :: bs) = Char.ofNat (64 * bits + k) :: utf8Decode {} bs := by
  have hstep : utf8Step { owed := 1, bits := bits } (0x80 + k) = ({}, [Char.ofNat (64 * bits + k)]) := by
    have hrange : 0x80 ≤ 0x80 + k ∧ 0x80 + k ≤ 0xbf := by omega
    unfold utf8Step
    rw [if_neg Nat.one_ne_zero, if_pos hrange, Nat.add_sub_cancel_left]
    exact if_pos rfl
  rw [utf8Decode, hstep, List.cons_append, List.nil_append]

theorem utf8Decode_char (c : Char) (bs : List Nat) : utf8Decode {} (utf8Char c ++ bs) = c :: utf8Decode {} bs := by
  have hvalid : c.toNat < 0xd800 ∨ 0xdfff < c.toNat ∧ c.toNat < 0x110000 := c.valid
  unfold utf8Char
  simp only []
  split
  next h => simp [utf8Decode, utf8Step, utf8First, h]
  next h1 =>
  split
  next h =>
    have hfirst : utf8First (0xc0 + c.toNat / 64) = ({ owed := 1, bits := c.toNat / 64 }, []) := by
      unfold utf8First
      rw [if_neg (by omega), if_pos (by omega), Nat.add_sub_cancel_left]
    have hbits : 64 * (c.toNat / 64) + c.toNat % 64 = c.toNat := by omega
    simp only [List.cons_append, List.nil_append]
    rw [utf8Decode_first hfirst, utf8Decode_last (by omega), hbits, Char.ofNat_toNat]
  next h2 =>
  split
  next h =>
    have hfirst : utf8First (0xe0 + c.toNat / 4096) = ({
        owed := 2, bits := c.toNat / 4096, lower := if 0xe0 + c.toNat / 4096 = 0xe0 then 0xa0 else 0x80
        upper := if 0xe0 + c.toNat / 4096 = 0xed then 0x9f else 0xbf }, []) := by
      unfold utf8First
      rw [if_neg (by omega), if_neg (by omega), if_pos (by omega), Nat.add_sub_cancel_left]
    -- Overlong forms and surrogates are what the bounds on the second octet keep out.
    have hsecond : (if 0xe0 + c.toNat / 4096 = 0xe0 then 0xa0 else 0x80) ≤ 0x80 + c.toNat / 64 % 64 ∧
        0x80 + c.toNat / 64 % 64 ≤ if 0xe0 + c.toNat / 4096 = 0xed then 0x9f else 0xbf := by
      split <;> split <;> omega
    have hbits : 64 * (64 * (c.toNat / 4096) + c.toNat / 64 % 64) + c.toNat % 64 = c.toNat := by omega
    simp only [List.cons_append, List.nil_append]
    rw [utf8Decode_first hfirst, utf8Decode_more hsecond, utf8Decode_last (Nat.mod_lt _ (by decide)), hbits,
      Char.ofNat_toNat]
  next h3 =>
    have hfirst : utf8First (0xf0 + c.toNat / 262144) = ({
        owed := 3, bits := c.toNat / 262144, lower := if 0xf0 + c.toNat / 262144 = 0xf0 then 0x90 else 0x80
        upper := if 0xf0 + c.toNat / 262144 = 0xf4 then 0x8f else 0xbf }, []) := by
      unfold utf8First
      rw [if_neg (by omega), if_neg (by omega), if_neg (by omega), if_pos (by omega), Nat.add_sub_cancel_left]
    have hsecond : (if 0xf0 + c.toNat / 262144 = 0xf0 then 0x90 else 0x80) ≤ 0x80 + c.toNat / 4096 % 64 ∧
        0x80 + c.toNat / 4096 % 64 ≤ if 0xf0 + c.toNat / 262144 = 0xf4 then 0x8f else 0xbf := by
      split <;> split <;> omega
    have hthird : 0x80 ≤ 0x80 + c.toNat / 64 % 64 ∧ 0x80 + c.toNat / 64 % 64 ≤ 0xbf := by omega
    have hbits : 64 * (64 * (64 * (c.toNat / 262144) + c.toNat / 4096 % 64) + c.toNat / 64 % 64) + c.toNat % 64 =
        c.toNat := by omega
    simp only [List.cons_append, List.nil_append]
    rw [utf8Decode_first hfirst, utf8Decode_more hsecond, utf8Decode_more hthird,
      utf8Decode_last (Nat.mod_lt _ (by decide)), hbits, Char.ofNat_toNat]

/-- **A text is read back from its octets.** -/
theorem decodeUtf8_utf8 (t : Text) : decodeUtf8 (utf8 t) = t := by
  show utf8Decode {} (t.flatMap utf8Char) = t
  induction t with
  | nil => rfl
  | cons c t ih => rw [List.flatMap_cons, utf8Decode_char, ih]

theorem utf8_lt (t : Text) : ∀ b ∈ utf8 t, b < 256 := by
  intro b hb
  obtain ⟨c, _, hc⟩ := List.mem_flatMap.1 hb
  have hvalid : c.toNat < 0xd800 ∨ 0xdfff < c.toNat ∧ c.toNat < 0x110000 := c.valid
  unfold utf8Char at hc
  simp only [] at hc
  split at hc
  next => simp only [List.mem_singleton] at hc; omega
  next =>
  split at hc
  next => simp only [List.mem_cons, List.not_mem_nil, or_false] at hc; omega
  next =>
  split at hc <;> simp only [List.mem_cons, List.not_mem_nil, or_false] at hc <;> omega

@[simp] theorem utf8_append (s t : Text) : utf8 (s ++ t) = utf8 s ++ utf8 t := List.flatMap_append

/-! ## base64url -/

/-- The digit of six bits. -/
def base64Digit (n : Nat) : Char :=
  if n < 26 then Char.ofNat (0x41 + n)
  else if n < 52 then Char.ofNat (0x61 + (n - 26))
  else if n < 62 then Char.ofNat (0x30 + (n - 52))
  else if n = 62 then '-' else '_'

/-- Both alphabets are read; what belongs to neither is passed over. -/
def base64Value (c : Char) : Option Nat :=
  let n := c.toNat
  if 0x41 ≤ n ∧ n ≤ 0x5a then some (n - 0x41)
  else if 0x61 ≤ n ∧ n ≤ 0x7a then some (n - 0x61 + 26)
  else if 0x30 ≤ n ∧ n ≤ 0x39 then some (n - 0x30 + 52)
  else if c = '-' ∨ c = '+' then some 62
  else if c = '_' ∨ c = '/' then some 63
  else none

/-- Octets as groups of six bits. -/
def sextets : List Nat → List Nat
  | a :: b :: c :: bs => a / 4 :: (a % 4 * 16 + b / 16) :: (b % 16 * 4 + c / 64) :: c % 64 :: sextets bs
  | [a, b] => [a / 4, a % 4 * 16 + b / 16, b % 16 * 4]
  | [a] => [a / 4, a % 4 * 16]
  | [] => []

/-- The octets of groups of six bits; bits that make no octet are dropped. -/
def octets : List Nat → List Nat
  | p :: q :: r :: s :: ds => (p * 4 + q / 16) :: (q % 16 * 16 + r / 4) :: (r % 4 * 64 + s) :: octets ds
  | [p, q, r] => [p * 4 + q / 16, q % 16 * 16 + r / 4]
  | [p, q] => [p * 4 + q / 16]
  | _ => []

/-- `buffer.toString("base64url")`. -/
def toBase64 (bs : List Nat) : Text := (sextets bs).map base64Digit

/-- `Buffer.from(t, "base64url")`. -/
def fromBase64 (t : Text) : List Nat := octets (t.filterMap base64Value)

theorem base64Value_digit : ∀ n < 64, base64Value (base64Digit n) = some n := by decide

theorem base64Digit_ne_dot : ∀ n < 64, base64Digit n ≠ '.' := by decide

theorem sextets_lt {bs : List Nat} (h : ∀ b ∈ bs, b < 256) : ∀ n ∈ sextets bs, n < 64 := by
  fun_induction sextets bs with
  | case1 a b c bs ih =>
    simp only [List.forall_mem_cons] at h ⊢
    obtain ⟨ha, hb, hc, hbs⟩ := h
    exact ⟨by omega, by omega, by omega, by omega, ih hbs⟩
  | case2 a b =>
    simp only [List.forall_mem_cons] at h ⊢
    obtain ⟨ha, hb, _⟩ := h
    exact ⟨by omega, by omega, by omega, fun n hn => (by cases hn)⟩
  | case3 a =>
    simp only [List.forall_mem_cons] at h ⊢
    obtain ⟨ha, _⟩ := h
    exact ⟨by omega, by omega, fun n hn => (by cases hn)⟩
  | case4 => exact fun n hn => (by cases hn)

theorem octets_sextets {bs : List Nat} (h : ∀ b ∈ bs, b < 256) : octets (sextets bs) = bs := by
  fun_induction sextets bs with
  | case1 a b c bs ih =>
    simp only [List.forall_mem_cons] at h
    obtain ⟨ha, hb, hc, hbs⟩ := h
    have h1 : a / 4 * 4 + (a % 4 * 16 + b / 16) / 16 = a := by omega
    have h2 : (a % 4 * 16 + b / 16) % 16 * 16 + (b % 16 * 4 + c / 64) / 4 = b := by omega
    have h3 : (b % 16 * 4 + c / 64) % 4 * 64 + c % 64 = c := by omega
    rw [octets, h1, h2, h3, ih hbs]
  | case2 a b =>
    simp only [List.forall_mem_cons] at h
    obtain ⟨ha, hb, _⟩ := h
    have h1 : a / 4 * 4 + (a % 4 * 16 + b / 16) / 16 = a := by omega
    have h2 : (a % 4 * 16 + b / 16) % 16 * 16 + b % 16 * 4 / 4 = b := by omega
    rw [octets, h1, h2]
  | case3 a =>
    have h1 : a / 4 * 4 + a % 4 * 16 / 16 = a := by omega
    rw [octets, h1]
  | case4 => rfl

/-- **Octets are read back from their digits.** -/
theorem fromBase64_toBase64 {bs : List Nat} (h : ∀ b ∈ bs, b < 256) : fromBase64 (toBase64 bs) = bs := by
  have hdigits : ∀ ds : List Nat, (∀ n ∈ ds, n < 64) → (ds.map base64Digit).filterMap base64Value = ds := by
    intro ds hds
    induction ds with
    | nil => rfl
    | cons n ds ih =>
      obtain ⟨hn, hds⟩ := List.forall_mem_cons.1 hds
      rw [List.map_cons, List.filterMap_cons_some (base64Value_digit n hn), ih hds]
  unfold fromBase64 toBase64
  rw [hdigits _ (sextets_lt h), octets_sextets h]

theorem dot_not_mem_toBase64 {bs : List Nat} (h : ∀ b ∈ bs, b < 256) : '.' ∉ toBase64 bs := by
  intro hmem
  obtain ⟨n, hn, hdot⟩ := List.mem_map.1 hmem
  exact base64Digit_ne_dot n (sextets_lt h n hn) hdot

theorem length_toBase64 (bs : List Nat) : (toBase64 bs).length = (4 * bs.length + 2) / 3 := by
  unfold toBase64
  rw [List.length_map]
  fun_induction sextets bs with
  | case1 a b c bs ih =>
    simp only [List.length_cons]
    omega
  | case2 a b => simp only [List.length_cons, List.length_nil]
  | case3 a => simp only [List.length_cons, List.length_nil]
  | case4 => rfl

end Zenod.Bytes
