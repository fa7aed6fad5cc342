/-
IP addresses and the texts that denote them. An IPv4 address is written in one
way, four decimal numbers. An IPv6 address has many spellings: its groups have
one to four digits of either case, one run of zero groups may be left out
(`::`), the last two groups may be written as an IPv4 address, and a zone may
follow.
-/
import Zenod.Lib.Text

namespace Zenod.Ip

instance digit_neZero : NeZero 16 := ⟨by decide⟩

instance byte_neZero : NeZero 256 := ⟨by decide⟩

instance group_neZero : NeZero 65536 := ⟨by decide⟩

/-! ## Addresses -/

structure V4 where
  a : Fin 256
  b : Fin 256
  c : Fin 256
  d : Fin 256
deriving DecidableEq

/-- Eight groups of sixteen bits. -/
structure V6 where
  groups : List (Fin 65536)
  eight : groups.length = 8
deriving DecidableEq

inductive Address
  | v4 (x : V4)
  | v6 (x : V6)
deriving DecidableEq

/-- The first two bytes and the last two. -/
def V4.ofGroups (g h : Fin 65536) : V4 where
  a := ⟨g / 256, by omega⟩
  b := ⟨g % 256, by omega⟩
  c := ⟨h / 256, by omega⟩
  d := ⟨h % 256, by omega⟩

def V4.groups (x : V4) : List (Fin 65536) := [⟨256 * x.a + x.b, by omega⟩, ⟨256 * x.c + x.d, by omega⟩]

theorem V4.ofGroups_groups (x : V4) : V4.ofGroups ⟨256 * x.a + x.b, by omega⟩ ⟨256 * x.c + x.d, by omega⟩ = x := by
  obtain ⟨a, b, c, d⟩ := x
  simp only [V4.ofGroups, V4.mk.injEq, Fin.ext_iff]
  omega

/-- The IPv4 address that an IPv6 address stands for (`::ffff:0:0/96`). -/
def V6.mapped (x : V6) : Option V4 :=
  match x.groups with
  | [0, 0, 0, 0, 0, 65535, g, h] => some (V4.ofGroups g h)
  | _ => none

def V6.isUnspecified (x : V6) : Bool := x.groups = [0, 0, 0, 0, 0, 0, 0, 0]
def V6.isLoopback (x : V6) : Bool := x.groups = [0, 0, 0, 0, 0, 0, 0, 1]

theorem V6.mapped_eq_some {x : V6} {d : V4} (h : x.mapped = some d) :
    ∃ g h, x.groups = [0, 0, 0, 0, 0, 65535, g, h] ∧ d = V4.ofGroups g h := by
  unfold V6.mapped at h
  split at h
  next g h' heq => exact ⟨g, h', heq, (Option.some.inj h).symm⟩
  next => cases h

theorem V6.mapped_of_groups {x : V6} {g h : Fin 65536} (heq : x.groups = [0, 0, 0, 0, 0, 65535, g, h]) :
    x.mapped = some (V4.ofGroups g h) := by
  obtain ⟨groups, eight⟩ := x
  subst heq
  rfl

/-- A range of the first group. -/
def V6.leads (x : V6) (low high : Nat) : Bool := x.groups.head?.any fun g => low ≤ g ∧ g ≤ high

/-- `fc00::/7`. -/
def V6.isUniqueLocal (x : V6) : Bool := x.leads 0xfc00 0xfdff
/-- `fe80::/10`. -/
def V6.isLinkLocal (x : V6) : Bool := x.leads 0xfe80 0xfebf
/-- `ff00::/8`. -/
def V6.isMulticast (x : V6) : Bool := x.leads 0xff00 0xffff

def V4.isUnspecified (x : V4) : Bool := x = ⟨0, 0, 0, 0⟩
def V4.isLoopback (x : V4) : Bool := x.a = 127
def V4.isPrivate (x : V4) : Bool := x.a = 10 || (x.a = 172 && 16 ≤ x.b && x.b ≤ 31) || (x.a = 192 && x.b = 168)
def V4.isLinkLocal (x : V4) : Bool := x.a = 169 && x.b = 254
/-- Carrier-grade NAT, `100.64.0.0/10`. -/
def V4.isShared (x : V4) : Bool := x.a = 100 && 64 ≤ x.b && x.b ≤ 127
def V4.isMulticast (x : V4) : Bool := 224 ≤ x.a && x.a ≤ 239

/-- Loopback, private, link-local, carrier-grade NAT, multicast or unspecified. -/
def V4.isInternal (x : V4) : Bool :=
  x.isUnspecified || x.isLoopback || x.isPrivate || x.isLinkLocal || x.isShared || x.isMulticast

def V6.isInternal (x : V6) : Bool :=
  x.isUnspecified || x.isLoopback || x.isUniqueLocal || x.isLinkLocal || x.isMulticast || x.mapped.any V4.isInternal

def Address.isInternal : Address → Bool
  | .v4 x => x.isInternal
  | .v6 x => x.isInternal

/-! ## Texts -/

def V4.text (x : V4) : Text :=
  Nat.toDigits 10 x.a ++ '.' :: (Nat.toDigits 10 x.b ++ '.' :: (Nat.toDigits 10 x.c ++ '.' :: Nat.toDigits 10 x.d))

structure HexDigit where
  value : Fin 16
  upper : Bool := false
deriving DecidableEq

def lowChar (n : Fin 16) : Char := if n < 10 then Char.ofNat (0x30 + n) else Char.ofNat (0x61 + (n - 10))

def HexDigit.char (d : HexDigit) : Char := if d.upper then (lowChar d.value).toUpper else lowChar d.value

/-- One to four digits. -/
structure Group where
  digits : List HexDigit
  nonempty : digits ≠ []
  short : digits.length ≤ 4
deriving DecidableEq

def Group.text (g : Group) : Text := g.digits.map HexDigit.char

def hexValue (digits : List HexDigit) : Nat := digits.foldl (fun n d => 16 * n + d.value) 0

/-- The groups that are written in front of `::`, and those behind it; without one, the groups in front are all. -/
structure Spelling where
  front : List Group
  behind : Option (List Group)
  last : Option V4 := none
  zone : Option Text := none
  fits : let written := front.length + (behind.getD []).length + last.elim 0 fun _ => 2
    if behind.isSome then written ≤ 7 else written = 8

theorem hexValue_lt (digits : List HexDigit) : hexValue digits < 16 ^ digits.length := by
  unfold hexValue
  induction digits using List.reverseRecOn with
  | nil => simp
  | append_singleton digits d ih =>
    rw [List.foldl_append, List.length_append, List.length_singleton, Nat.pow_succ]
    have hd := d.value.isLt
    simp only [List.foldl_cons, List.foldl_nil]
    omega

def Group.value (g : Group) : Fin 65536 :=
  ⟨hexValue g.digits, lt_of_lt_of_le (hexValue_lt g.digits) (Nat.pow_le_pow_right (by omega) g.short)⟩

/-- The groups behind each other, the last two perhaps as an IPv4 address. -/
def groupsText : List Group → Option V4 → Text
  | [], none => []
  | [], some x => x.text
  | [g], none => g.text
  | g :: groups, last => g.text ++ ':' :: groupsText groups last

/-- The text without the zone. -/
def Spelling.address (s : Spelling) : Text :=
  match s.behind with
  | none => groupsText s.front s.last
  | some behind => groupsText s.front none ++ ':' :: ':' :: groupsText behind s.last

def Spelling.text (s : Spelling) : Text := s.address ++ s.zone.elim [] fun zone => '%' :: zone

def Spelling.groups (s : Spelling) : List (Fin 65536) :=
  let written := (s.behind.getD []).map Group.value ++ s.last.elim [] V4.groups
  s.front.map Group.value ++ (List.replicate (8 - s.front.length - written.length) 0 ++ written)

def Spelling.value (s : Spelling) : V6 where
  groups := s.groups
  eight := by
    obtain ⟨front, behind, last, zone, hfits⟩ := s
    cases behind <;> cases last <;> simp [Spelling.groups, V4.groups] at hfits ⊢ <;> omega

/-- A text of an address. -/
inductive Form
  | v4 (x : V4)
  | v6 (s : Spelling)

def Form.text : Form → Text
  | .v4 x => x.text
  | .v6 s => s.text

def Form.value : Form → Address
  | .v4 x => .v4 x
  | .v6 s => .v6 s.value

/-- A text that denotes an address. -/
def Denotes (t : Text) (x : Address) : Prop := ∃ form : Form, form.text = t ∧ form.value = x

/-! ## The characters of a text -/

theorem char_toLower : ∀ d : HexDigit, d.char.toLower = lowChar d.value := by
  have h : ∀ v : Fin 16, ∀ u : Bool, (HexDigit.char ⟨v, u⟩).toLower = lowChar v := by decide
  exact fun d => h d.value d.upper

theorem char_ne {c : Char} (h : ∀ v : Fin 16, ∀ u : Bool, HexDigit.char ⟨v, u⟩ ≠ c) (d : HexDigit) : d.char ≠ c :=
  h d.value d.upper

theorem not_mem_toDigits {c : Char} (h : c.isDigit = false) (n : Nat) : c ∉ Nat.toDigits 10 n := by
  intro hc
  rw [Nat.isDigit_of_mem_toDigits (by decide) (by decide) hc] at h
  cases h

theorem toLower_of_isDigit {c : Char} (h : c.isDigit = true) : c.toLower = c := by
  unfold Char.isDigit at h
  simp only [ge_iff_le, Bool.and_eq_true, decide_eq_true_eq, UInt32.le_iff_toNat_le] at h
  unfold Char.toLower
  refine dif_neg fun hupper => ?_
  exact absurd ((UInt32.le_iff_toNat_le.1 hupper.1).trans h.2) (by decide)

theorem decimal_toLower (n : Fin 256) : (Nat.toDigits 10 n).map Char.toLower = Nat.toDigits 10 n := by
  have hdigits : ∀ c ∈ Nat.toDigits 10 n, c.toLower = id c :=
    fun c hc => toLower_of_isDigit (Nat.isDigit_of_mem_toDigits (by decide) (by decide) hc)
  rw [List.map_congr_left hdigits, List.map_id]

theorem text_toLower (x : V4) : x.text.map Char.toLower = x.text := by
  simp only [V4.text, List.map_append, List.map_cons, decimal_toLower]
  rfl

theorem not_mem_text {x : V4} {c : Char} (hdigit : c.isDigit = false) (hpoint : c ≠ '.') : c ∉ x.text := by
  simp [V4.text, not_mem_toDigits hdigit, hpoint]

theorem groupsText_cons (g : Group) (groups : List Group) (last : Option V4) :
    groupsText (g :: groups) last = g.text ++ if groups = [] ∧ last = none then [] else ':' :: groupsText groups last := by
  cases groups with
  | cons => simp [groupsText]
  | nil => cases last <;> simp [groupsText]

theorem not_mem_groupsText {c : Char} (hchar : ∀ d : HexDigit, d.char ≠ c) (hcolon : c ≠ ':') (groups : List Group)
    (last : Option V4) (hlast : ∀ x, last = some x → c ∉ x.text) : c ∉ groupsText groups last := by
  induction groups with
  | nil =>
    cases last with
    | none => exact List.not_mem_nil
    | some x => exact hlast x rfl
  | cons g groups ih =>
    rw [groupsText_cons]
    intro hmem
    rcases List.mem_append.1 hmem with hmem | hmem
    · obtain ⟨d, -, hd⟩ := List.mem_map.1 hmem
      exact hchar d hd
    · split at hmem
      · cases hmem
      · exact (List.mem_cons.1 hmem).elim hcolon ih

/-! ## Lower case -/

def Group.low (g : Group) : Group where
  digits := g.digits.map fun d => ⟨d.value, false⟩
  nonempty := by simpa using g.nonempty
  short := by simpa using g.short

def Group.values (g : Group) : List (Fin 16) := g.digits.map HexDigit.value

theorem Group.low_text (g : Group) : g.low.text = g.values.map lowChar := by
  simp only [Group.text, Group.low, Group.values, List.map_map]
  rfl

theorem Group.text_toLower (g : Group) : g.text.map Char.toLower = g.low.text := by
  rw [low_text]
  simp only [Group.text, Group.values, List.map_map]
  exact List.map_congr_left fun d _ => char_toLower d

theorem groupsText_toLower (groups : List Group) (last : Option V4) :
    (groupsText groups last).map Char.toLower = groupsText (groups.map Group.low) last := by
  induction groups with
  | nil =>
    cases last with
    | none => rfl
    | some x => exact Ip.text_toLower x
  | cons g groups ih =>
    rw [List.map_cons, groupsText_cons, groupsText_cons, List.map_append, Group.text_toLower]
    split
    next h => rw [if_pos ⟨by rw [h.1]; rfl, h.2⟩]; rfl
    next h =>
      rw [if_neg fun hnil => h ⟨List.map_eq_nil_iff.1 hnil.1, hnil.2⟩, List.map_cons, ih]
      rfl

/-- The value is in the digits, whatever their case. -/
theorem Group.value_eq (g : Group) : (g.value : Nat) = g.values.foldl (fun n v => 16 * n + v.val) 0 := by
  simp only [Group.value, Group.values, hexValue, List.foldl_map]

end Zenod.Ip
