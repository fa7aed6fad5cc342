/-
Which addresses a subscriber may not have (`subscribers.ts`):
`isPrivateAddress` looks at the text of an address. Over all the texts that
denote an address: how each is judged, and which are judged otherwise than
their address.
-/
import Zenod.Lib.Ip
import Zenod.Lib.Number

namespace Zenod.Subscribers

open Text Ip

/-! ## The code -/

/-- The tests of the first two bytes, in dotted form. -/
def isPrivateRange (a b : Fin 256) : Bool :=
  a = 0 || a = 10 || a = 127 || (a = 100 && 64 ≤ b && b ≤ 127) || (a = 169 && b = 254) ||
    (a = 172 && 16 ≤ b && b ≤ 31) || (a = 192 && b = 168) || (a = 198 && (b = 18 || b = 19)) || 224 ≤ a

/-- `toLowerCase`, and what stands before the first percent sign. -/
def normalized (address : Text) : Text := (address.map Char.toLower).takeWhile (· ≠ '%')

/-- `f[cd]` or `fe[89ab]` at the start. -/
def startsLocal : Text → Bool
  | 'f' :: 'c' :: _ => true
  | 'f' :: 'd' :: _ => true
  | 'f' :: 'e' :: c :: _ => c = '8' || c = '9' || c = 'a' || c = 'b'
  | _ => false

/-- Four numbers from 0 to 255 between points, the first two of a private range. -/
def isPrivateDotted (t : Text) : Bool :=
  match (t.splitOn '.').map fun part => (Number.toNumber part).bind Number.byte with
  | [some a, some b, some _, some _] => isPrivateRange a b
  | _ => false

theorem normalized_length (address : Text) : (normalized address).length ≤ address.length := by
  have h := (List.takeWhile_sublist (· ≠ '%') (l := address.map Char.toLower)).length_le
  rwa [List.length_map] at h

def isPrivateAddress (address : Text) : Bool :=
  if normalized address = "::".toList ∨ normalized address = "::1".toList then true
  else if startsLocal (normalized address) then true
  else if startsWith (normalized address) "::ffff:".toList then isPrivateAddress ((normalized address).drop 7)
  else isPrivateDotted (normalized address)
termination_by address.length
decreasing_by
  have hlen := normalized_length address
  have hprefix := (startsWith_iff.1 ‹startsWith (normalized address) "::ffff:".toList = true›).length_le
  have hseven : "::ffff:".toList.length = 7 := by decide
  rw [List.length_drop]
  omega

/-! ## A spelling under the tests -/

/-- The first digits of `fc00::/7` and `fe80::/10`, as numbers. -/
def isLocal : List (Fin 16) → Bool
  | 15 :: 12 :: _ => true
  | 15 :: 13 :: _ => true
  | 15 :: 14 :: n :: _ => 8 ≤ n ∧ n ≤ 11
  | _ => false

theorem startsLocal_take (t : Text) : startsLocal (t.take 3) = startsLocal t := by
  rcases t with _ | ⟨a, _ | ⟨b, _ | ⟨c, t⟩⟩⟩
  · rfl
  · rfl
  · rfl
  · simp only [List.take_succ_cons, List.take_zero, startsLocal]
    split <;> split <;> simp_all

theorem isLocal_take (vs : List (Fin 16)) : isLocal (vs.take 3) = isLocal vs := by
  rcases vs with _ | ⟨a, _ | ⟨b, _ | ⟨c, vs⟩⟩⟩
  · rfl
  · rfl
  · rfl
  · simp only [List.take_succ_cons, List.take_zero, isLocal]
    split <;> split <;> simp_all

/-- Two or three digits start as their values do. -/
theorem startsLocal_digits :
    (∀ a b c : Fin 16, startsLocal [lowChar a, lowChar b, lowChar c] = isLocal [a, b, c]) ∧
      ∀ a b : Fin 16,
        startsLocal [lowChar a, lowChar b] = isLocal [a, b] ∧ startsLocal [lowChar a, lowChar b, ':'] = isLocal [a, b] := by
  decide +kernel

theorem isLocal_one : ∀ a : Fin 16, isLocal [a] = false ∧ startsLocal [lowChar a] = false := by
  decide

theorem startsLocal_one (a : Fin 16) (t : Text) : startsLocal (lowChar a :: ':' :: t) = false := by
  unfold startsLocal
  split
  next heq => simp at heq
  next heq => simp at heq
  next heq => simp at heq
  next => rfl

/-- What stands behind a group: nothing, or a colon and more. -/
def Behind (r : Text) : Prop := r = [] ∨ ∃ t, r = ':' :: t

theorem startsLocal_group (g : Group) {r : Text} (hr : Behind r) : startsLocal (g.low.text ++ r) = isLocal g.values := by
  rw [Group.low_text]
  rcases hvalues : g.values with _ | ⟨a, _ | ⟨b, _ | ⟨c, vs⟩⟩⟩
  · exact absurd (List.map_eq_nil_iff.1 hvalues) g.nonempty
  · rcases hr with rfl | ⟨t, rfl⟩
    · rw [(isLocal_one a).1]
      exact (isLocal_one a).2
    · rw [(isLocal_one a).1]
      exact startsLocal_one a t
  · rcases hr with rfl | ⟨t, rfl⟩
    · exact (startsLocal_digits.2 a b).1
    · rw [← startsLocal_take]
      exact (startsLocal_digits.2 a b).2
  · rw [← startsLocal_take, ← isLocal_take (a :: b :: c :: vs)]
    exact startsLocal_digits.1 a b c

theorem lowChar_ne {c : Char} (h : ∀ v : Fin 16, lowChar v ≠ c) (g : Group) : c ∉ g.low.text := by
  rw [Group.low_text]
  intro hmem
  obtain ⟨v, -, hv⟩ := List.mem_map.1 hmem
  exact h v hv

/-- The first character is a digit. -/
theorem exists_low_text (g : Group) : ∃ v t, g.low.text = lowChar v :: t := by
  rw [Group.low_text]
  cases hvalues : g.values with
  | nil => exact absurd (List.map_eq_nil_iff.1 hvalues) g.nonempty
  | cons v vs => exact ⟨v, vs.map lowChar, rfl⟩

/-- With a colon before the first point the first part is no number. -/
theorem isPrivateDotted_of_colon {p : Text} (hcolon : ':' ∈ p) (hpoint : '.' ∉ p) (r : Text) :
    isPrivateDotted (p ++ r) = false := by
  have hsplit : ∃ part parts, (p ++ r).splitOn '.' = (p ++ part) :: parts := by
    clear hcolon
    induction p with
    | nil =>
      cases h : r.splitOn '.' with
      | nil => exact absurd h (List.splitOn_ne_nil _ _)
      | cons part parts => exact ⟨part, parts, h⟩
    | cons c p ih =>
      obtain ⟨part, parts, h⟩ := ih fun hmem => hpoint (List.mem_cons_of_mem c hmem)
      refine ⟨part, parts, ?_⟩
      have hc : ¬(c == '.') = true := fun heq => hpoint (beq_iff_eq.1 heq ▸ List.mem_cons_self)
      rw [List.cons_append, List.splitOn_cons_eq_if_modifyHead, if_neg hc, h]
      rfl
  obtain ⟨part, parts, h⟩ := hsplit
  have hforeign : Number.toNumber (p ++ part) = none :=
    Number.toNumber_of_mem ⟨by decide, by decide, by decide, by decide, by decide⟩ (List.mem_append_left _ hcolon)
  unfold isPrivateDotted
  rw [h, List.map_cons, hforeign]
  split
  next heq => simp at heq
  next => rfl

theorem isPrivateDotted_single {t : Text} (hpoint : '.' ∉ t) : isPrivateDotted t = false := by
  unfold isPrivateDotted
  rw [List.splitOn_eq_singleton hpoint, List.map_cons, List.map_nil]
  split
  next heq => simp at heq
  next => rfl

theorem isPrivateDotted_text (x : V4) : isPrivateDotted x.text = isPrivateRange x.a x.b := by
  have hpoint : ∀ n : Fin 256, '.' ∉ Nat.toDigits 10 n := fun n => not_mem_toDigits (by decide) n
  have hsplit : x.text.splitOn '.' =
      [Nat.toDigits 10 x.a, Nat.toDigits 10 x.b, Nat.toDigits 10 x.c, Nat.toDigits 10 x.d] := by
    unfold V4.text
    rw [List.splitOn_append_cons_self, List.splitOn_append_cons_self, List.splitOn_append_cons_self,
      List.splitOn_eq_singleton (hpoint _), List.splitOn_eq_singleton (hpoint _), List.splitOn_eq_singleton (hpoint _),
      List.splitOn_eq_singleton (hpoint _)]
    rfl
  unfold isPrivateDotted
  rw [hsplit]
  simp only [List.map_cons, List.map_nil, Number.toNumber_decimal]

theorem isPrivateDotted_group (g : Group) {r : Text} (hr : Behind r) : isPrivateDotted (g.low.text ++ r) = false := by
  have hpoint : '.' ∉ g.low.text := lowChar_ne (by decide) g
  rcases hr with rfl | ⟨t, rfl⟩
  · rw [List.append_nil]
    exact isPrivateDotted_single hpoint
  · rw [List.append_cons]
    refine isPrivateDotted_of_colon (List.mem_append_right _ (List.mem_singleton_self _)) (fun hmem => ?_) t
    rcases List.mem_append.1 hmem with hmem | hmem
    · exact hpoint hmem
    · exact absurd (List.mem_singleton.1 hmem) (by decide)

/-- A text that starts with a group is judged by its first digits. -/
theorem isPrivateAddress_group {u r : Text} {g : Group} (h : normalized u = g.low.text ++ r) (hr : Behind r) :
    isPrivateAddress u = isLocal g.values := by
  obtain ⟨v, t, hv⟩ := exists_low_text g
  have hcolon : lowChar v ≠ ':' := (by decide : ∀ v : Fin 16, lowChar v ≠ ':') v
  rw [isPrivateAddress, h, startsLocal_group g hr, isPrivateDotted_group g hr]
  have hshort : ¬(g.low.text ++ r = "::".toList ∨ g.low.text ++ r = "::1".toList) := by
    rw [hv]
    rintro (heq | heq)
    · exact hcolon (List.cons.inj heq).1
    · exact hcolon (List.cons.inj heq).1
  have hlong : ¬startsWith (g.low.text ++ r) "::ffff:".toList = true := by
    rw [hv, startsWith_iff]
    rintro ⟨s, hs⟩
    exact hcolon (List.cons.inj hs).1.symm
  rw [if_neg hshort, if_neg hlong]
  cases isLocal g.values <;> rfl

theorem low_low (g : Group) : g.low.low = g.low := by
  simp [Group.low]

theorem takeWhile_percent {t : Text} (h : '%' ∉ t) (r : Text) (hr : r = [] ∨ ∃ zone, r = '%' :: zone) :
    (t ++ r).takeWhile (· ≠ '%') = t := by
  have hall : ∀ c ∈ t, decide (c ≠ '%') = true := fun c hc => decide_eq_true fun heq => h (heq ▸ hc)
  rw [List.takeWhile_append_of_pos hall]
  rcases hr with rfl | ⟨zone, rfl⟩
  · simp
  · simp

theorem percent_not_mem (groups : List Group) (last : Option V4) : '%' ∉ groupsText groups last :=
  not_mem_groupsText (char_ne (by decide)) (by decide) groups last fun x _ => not_mem_text (by decide) (by decide)

theorem normalized_groups (groups : List Group) (last : Option V4) :
    normalized (groupsText (groups.map Group.low) last) = groupsText (groups.map Group.low) last := by
  unfold normalized
  have hlow : (groups.map Group.low).map Group.low = groups.map Group.low := by
    rw [List.map_map]
    exact List.map_congr_left fun g _ => low_low g
  have h := takeWhile_percent (percent_not_mem (groups.map Group.low) last) [] (Or.inl rfl)
  rw [List.append_nil] at h
  rw [groupsText_toLower, hlow, h]

/-- The address of a spelling in lower case. -/
def lowAddress (s : Spelling) : Text :=
  match s.behind with
  | none => groupsText (s.front.map Group.low) s.last
  | some behind => groupsText (s.front.map Group.low) none ++ ':' :: ':' :: groupsText (behind.map Group.low) s.last

theorem normalized_text (s : Spelling) : normalized s.text = lowAddress s := by
  obtain ⟨front, behind, last, zone, hfits⟩ := s
  have hzone : (zone.elim [] fun zone => '%' :: zone : Text).map Char.toLower = [] ∨
      ∃ rest, (zone.elim [] fun zone => '%' :: zone : Text).map Char.toLower = '%' :: rest := by
    cases zone with
    | none => exact Or.inl rfl
    | some zone => exact Or.inr ⟨zone.map Char.toLower, rfl⟩
  unfold normalized Spelling.text
  rw [List.map_append]
  have haddress : (Spelling.address ⟨front, behind, last, zone, hfits⟩).map Char.toLower =
      lowAddress ⟨front, behind, last, zone, hfits⟩ := by
    unfold Spelling.address lowAddress
    cases behind with
    | none => exact groupsText_toLower front last
    | some behind =>
      simp only []
      rw [List.map_append, List.map_cons, List.map_cons, groupsText_toLower, groupsText_toLower]
      rfl
  rw [haddress]
  refine takeWhile_percent ?_ _ hzone
  unfold lowAddress
  cases behind with
  | none => exact percent_not_mem _ _
  | some behind =>
    intro hmem
    rcases List.mem_append.1 hmem with hmem | hmem
    · exact percent_not_mem _ _ hmem
    · simp only [List.mem_cons] at hmem
      rcases hmem with hmem | hmem | hmem
      · exact absurd hmem (by decide)
      · exact absurd hmem (by decide)
      · exact percent_not_mem _ _ hmem

/-! ## How a spelling is judged -/

/-- The group that is written in full as `ffff`, in whatever case. -/
def allOnes : List (Fin 16) := [15, 15, 15, 15]

def judged (s : Spelling) : Bool :=
  match s.front, s.behind with
  | g :: _, _ => isLocal g.values
  | [], none => false
  | [], some [] => s.last.isNone
  | [], some (g :: more) =>
    if g.values = [1] ∧ more = [] ∧ s.last = none then true
    else if g.values = allOnes then
      match more, s.last with
      | [], none => false
      | [], some x => isPrivateRange x.a x.b
      | h :: _, _ => isLocal h.values
    else false

theorem isPrivateAddress_v4 (x : V4) : isPrivateAddress x.text = isPrivateRange x.a x.b := by
  have hnormalized : normalized x.text = x.text := by
    have h := takeWhile_percent (not_mem_text (x := x) (c := '%') (by decide) (by decide)) [] (Or.inl rfl)
    rw [List.append_nil] at h
    unfold normalized
    rw [text_toLower, h]
  have hhead : ∀ n : Fin 256, ∀ r, ∃ c t, Nat.toDigits 10 n ++ r = c :: t ∧ c ≠ ':' ∧ c ≠ 'f' := by
    have h : ∀ n : Fin 256, ∃ c t, Nat.toDigits 10 n = c :: t ∧ c ≠ ':' ∧ c ≠ 'f' := fun n => by
      cases hdigits : Nat.toDigits 10 n with
      | nil => exact absurd hdigits Nat.toDigits_ne_nil
      | cons c t =>
        have hnot : ∀ n : Fin 256, ':' ∉ Nat.toDigits 10 n ∧ 'f' ∉ Nat.toDigits 10 n :=
          fun n => ⟨not_mem_toDigits (by decide) n, not_mem_toDigits (by decide) n⟩
        obtain ⟨h1, h2⟩ := hnot n
        rw [hdigits] at h1 h2
        exact ⟨c, t, rfl, fun heq => h1 (heq ▸ List.mem_cons_self), fun heq => h2 (heq ▸ List.mem_cons_self)⟩
    intro n r
    obtain ⟨c, t, hdigits, hc⟩ := h n
    exact ⟨c, t ++ r, by rw [hdigits, List.cons_append], hc⟩
  obtain ⟨c, t, htext, hcolon, hf⟩ := hhead x.a ('.' :: (Nat.toDigits 10 x.b ++ '.' :: (Nat.toDigits 10 x.c ++
    '.' :: Nat.toDigits 10 x.d)))
  have htext : x.text = c :: t := htext
  have hlocal : startsLocal (c :: t) = false := by
    unfold startsLocal
    split
    next heq => exact absurd (List.cons.inj heq).1 hf
    next heq => exact absurd (List.cons.inj heq).1 hf
    next heq => exact absurd (List.cons.inj heq).1 hf
    next => rfl
  have hshort : ¬(c :: t = "::".toList ∨ c :: t = "::1".toList) := by
    rintro (heq | heq)
    · exact hcolon (List.cons.inj heq).1
    · exact hcolon (List.cons.inj heq).1
  have hlong : ¬startsWith (c :: t) "::ffff:".toList = true := by
    rw [startsWith_iff]
    rintro ⟨s, hs⟩
    exact hcolon (List.cons.inj hs).1.symm
  rw [isPrivateAddress, hnormalized, htext, if_neg hshort, hlocal, if_neg hlong, ← htext]
  exact isPrivateDotted_text x

theorem behind_groups (groups : List Group) (last : Option V4) :
    Behind (if groups = [] ∧ last = none then [] else ':' :: groupsText groups last) := by
  split
  next => exact Or.inl rfl
  next => exact Or.inr ⟨_, rfl⟩

/-- A group is `1` alone. -/
theorem group_eq_one (g : Group) (r : Text) :
    g.low.text ++ r = ['1'] ↔ g.values = [1] ∧ r = [] := by
  have hone : ∀ v : Fin 16, lowChar v = '1' ↔ v = 1 := by decide
  rw [Group.low_text]
  rcases hvalues : g.values with _ | ⟨a, vs⟩
  · exact absurd (List.map_eq_nil_iff.1 hvalues) g.nonempty
  · simp only [List.map_cons, List.cons_append, List.cons.injEq, List.append_eq_nil_iff, List.map_eq_nil_iff, hone,
      and_assoc]

/-- A group is `ffff`, and a colon follows. -/
theorem group_ffff (g : Group) {r : Text} (hr : Behind r) :
    startsWith (g.low.text ++ r) "ffff:".toList = true ↔ g.values = allOnes ∧ r ≠ [] := by
  have hf : ∀ v : Fin 16, 'f' = lowChar v ↔ v = 15 := by decide
  have hcolon : ∀ v : Fin 16, lowChar v ≠ ':' := by decide
  have hmark : "ffff:".toList = ['f', 'f', 'f', 'f', ':'] := by decide
  have hshort : g.values.length ≤ 4 := by
    unfold Group.values
    rw [List.length_map]
    exact g.short
  rw [Group.low_text, hmark]
  unfold startsWith allOnes
  rcases hvalues : g.values with _ | ⟨a, _ | ⟨b, _ | ⟨c, _ | ⟨d, _ | ⟨e, vs⟩⟩⟩⟩⟩
  · exact absurd (List.map_eq_nil_iff.1 hvalues) g.nonempty
  · rcases hr with rfl | ⟨t, rfl⟩ <;> simp
  · rcases hr with rfl | ⟨t, rfl⟩ <;> simp
  · rcases hr with rfl | ⟨t, rfl⟩ <;> simp
  · rcases hr with rfl | ⟨t, rfl⟩
    · simp
    · simp only [List.map_cons, List.map_nil, List.cons_append, List.nil_append, List.isPrefixOf, Bool.and_eq_true,
        beq_iff_eq, hf, and_true, List.cons.injEq, ne_eq, reduceCtorEq, not_false_eq_true]
  · rw [hvalues] at hshort
    simp only [List.length_cons] at hshort
    omega

/-- **How a spelling is judged**: by the digits it is written with. -/
theorem isPrivateAddress_text (s : Spelling) : isPrivateAddress s.text = judged s := by
  have hnormalized := normalized_text s
  obtain ⟨front, behind, last, zone, hfits⟩ := s
  generalize Spelling.text ⟨front, behind, last, zone, hfits⟩ = u at hnormalized ⊢
  cases front with
  | cons g front =>
    -- what follows the first group starts with a colon, of a further group or of the gap
    have hr : ∃ r, normalized u = g.low.text ++ r ∧ Behind r := by
      rw [hnormalized]
      unfold lowAddress
      cases behind with
      | none => exact ⟨_, groupsText_cons g.low (front.map Group.low) last, behind_groups _ _⟩
      | some behind =>
        simp only [List.map_cons]
        rw [groupsText_cons, List.append_assoc]
        refine ⟨_, rfl, ?_⟩
        split
        next => exact Or.inr ⟨_, rfl⟩
        next => exact Or.inr ⟨_, rfl⟩
    obtain ⟨r, hu, hr⟩ := hr
    exact isPrivateAddress_group hu hr
  | nil =>
    cases behind with
    | none => simp at hfits; cases last <;> simp at hfits
    | some behind =>
      have hlow : normalized u = ':' :: ':' :: groupsText (behind.map Group.low) last := hnormalized
      have hgap : ∀ r : Text, isPrivateDotted (':' :: ':' :: r) = false := fun r =>
        isPrivateDotted_of_colon (p := [':', ':']) (by decide) (by decide) r
      have hlocal : ∀ r : Text, startsLocal (':' :: r) = false := fun r => by
        unfold startsLocal
        split
        next heq => simp at heq
        next heq => simp at heq
        next heq => simp at heq
        next => rfl
      rw [isPrivateAddress, hlow, hlocal, hgap, if_neg Bool.false_ne_true]
      have hdrop : ∀ r : Text, startsWith (':' :: ':' :: r) "::ffff:".toList = startsWith r "ffff:".toList := fun _ => rfl
      cases behind with
      | nil =>
        cases last with
        | none => exact if_pos (Or.inl rfl)
        | some x =>
          have hpoint : '.' ∈ x.text := by simp [V4.text]
          have hf : 'f' ∉ x.text := not_mem_text (by decide) (by decide)
          have hshort : ¬(':' :: ':' :: x.text = "::".toList ∨ ':' :: ':' :: x.text = "::1".toList) := by
            rintro (heq | heq)
            · rw [(List.cons.inj (List.cons.inj heq).2).2] at hpoint
              exact absurd hpoint (by decide)
            · rw [(List.cons.inj (List.cons.inj heq).2).2] at hpoint
              exact absurd hpoint (by decide)
          have hlong : ¬startsWith x.text "ffff:".toList = true := by
            rw [startsWith_iff]
            rintro ⟨s, hs⟩
            exact hf (hs ▸ List.mem_append_left _ List.mem_cons_self)
          show (if ':' :: ':' :: x.text = "::".toList ∨ ':' :: ':' :: x.text = "::1".toList then true else _) = false
          rw [if_neg hshort]
          show (if startsWith x.text "ffff:".toList = true then _ else false) = false
          rw [if_neg hlong]
      | cons g more =>
        have hr := behind_groups (more.map Group.low) last
        rw [List.map_cons, groupsText_cons]
        generalize hrest : (if more.map Group.low = [] ∧ last = none then [] else ':' :: groupsText (more.map Group.low) last) =
          r at hr ⊢
        have hone : ':' :: ':' :: (g.low.text ++ r) = "::".toList ∨ ':' :: ':' :: (g.low.text ++ r) = "::1".toList ↔
            g.values = [1] ∧ r = [] := by
          rw [← group_eq_one]
          refine ⟨fun heq => ?_, fun heq => Or.inr (by rw [heq]; rfl)⟩
          rcases heq with heq | heq
          · have hnil : g.low.text ++ r = [] := (List.cons.inj (List.cons.inj heq).2).2
            obtain ⟨v, t, hv⟩ := exists_low_text g
            rw [hv] at hnil
            cases hnil
          · exact (List.cons.inj (List.cons.inj heq).2).2
        have hnil : r = [] ↔ more = [] ∧ last = none := by
          rw [← hrest]
          split
          next h => simpa using h
          next h => simpa using h
        unfold judged
        simp only [hdrop]
        by_cases h1 : g.values = [1] ∧ r = []
        · rw [if_pos (hone.2 h1), if_pos ⟨h1.1, hnil.1 h1.2⟩]
        · have hnot : ¬(g.values = [1] ∧ more = [] ∧ last = none) := fun h => h1 ⟨h.1, hnil.2 h.2⟩
          rw [if_neg fun h => h1 (hone.1 h), if_neg hnot]
          by_cases h4 : g.values = allOnes
          · rw [if_pos h4]
            by_cases hr' : r = []
            · rw [if_neg fun h => ((group_ffff g hr).1 h).2 hr', (hnil.1 hr').1, (hnil.1 hr').2]
            · rw [if_pos ((group_ffff g hr).2 ⟨h4, hr'⟩)]
              have hbehind : (':' :: ':' :: (g.low.text ++ r)).drop 7 = groupsText (more.map Group.low) last := by
                show List.drop 5 (g.low.text ++ r) = _
                rw [Group.low_text, h4]
                rw [← hrest] at hr' ⊢
                split at hr'
                next => exact absurd rfl hr'
                next hne => rw [if_neg hne]; rfl
              rw [hbehind]
              cases more with
              | nil =>
                cases last with
                | none => exact absurd (hnil.2 ⟨rfl, rfl⟩) hr'
                | some x => exact isPrivateAddress_v4 x
              | cons h rest =>
                refine isPrivateAddress_group ?_ (behind_groups (rest.map Group.low) last)
                rw [normalized_groups, List.map_cons, groupsText_cons]
          · rw [if_neg h4, if_neg fun h => h4 ((group_ffff g hr).1 h).1]

/-! ## The address that is written -/

/-- The judgement of `isPrivateAddress`, of an address instead of a text. -/
def isReserved : Address → Bool
  | .v4 x => isPrivateRange x.a x.b
  | .v6 x => x.isUnspecified || x.isLoopback || x.isUniqueLocal || x.isLinkLocal ||
      x.mapped.any fun d => isPrivateRange d.a d.b

/-- Written `::1`. -/
def WrittenOne (s : Spelling) : Prop :=
  s.front = [] ∧ s.last = none ∧ ∃ g, s.behind = some [g] ∧ g.values = [1]

/-- Written `::ffff:` and in dotted form, or with a group that starts like a local one. -/
def WrittenMapped (s : Spelling) : Prop :=
  s.front = [] ∧ ∃ g more, s.behind = some (g :: more) ∧ g.values = allOnes ∧
    ((more = [] ∧ s.last ≠ none) ∨ ∃ h rest, more = h :: rest ∧ isLocal h.values = true)

/-- Spellings of reserved addresses that are let through. -/
def Missed (s : Spelling) : Prop :=
  (s.value.isUnspecified = true ∧ ¬(s.front = [] ∧ s.behind = some [] ∧ s.last = none)) ∨
    (s.value.isLoopback = true ∧ ¬WrittenOne s) ∨
    ((s.value.mapped.any fun d => isPrivateRange d.a d.b) = true ∧ ¬WrittenMapped s)

/-- Spellings of other addresses that are refused: a short group in the deciding place, or `::ffff:` before it where the
groups are no IPv4 address. -/
def Overblocked (s : Spelling) : Prop :=
  (∃ g rest, s.front = g :: rest ∧ isLocal g.values = true ∧ g.values.length < 4) ∨
    (s.front = [] ∧ ∃ g h rest, s.behind = some (g :: h :: rest) ∧ g.values = allOnes ∧ isLocal h.values = true ∧
      ¬(rest.length = 1 ∧ s.last = none ∧ h.values.length ≠ 3))

theorem isLocal_iff (a b c : Fin 16) : isLocal [a, b, c] = true ↔
    a.val = 15 ∧ (b.val = 12 ∨ b.val = 13 ∨ (b.val = 14 ∧ 8 ≤ c.val ∧ c.val ≤ 11)) := by
  unfold isLocal
  split <;> simp_all [Fin.ext_iff, Fin.le_def]
  next hother => exact fun ha hb => absurd rfl (hother c [] ha hb rfl)

theorem isLocal_iff_two (a b : Fin 16) : isLocal [a, b] = true ↔ a.val = 15 ∧ (b.val = 12 ∨ b.val = 13) := by
  unfold isLocal
  split <;> simp_all [Fin.ext_iff]
  next hc hd => exact fun ha => ⟨fun hb => hc [] ha hb rfl, fun hb => hd [] ha hb rfl⟩

theorem isLocal_iff_more (a b c d : Fin 16) : isLocal [a, b, c, d] = true ↔
    a.val = 15 ∧ (b.val = 12 ∨ b.val = 13 ∨ (b.val = 14 ∧ 8 ≤ c.val ∧ c.val ≤ 11)) := by
  rw [← isLocal_take]
  exact isLocal_iff a b c

/-- The range of a first byte, where that alone decides. -/
theorem isPrivateRange_first {a : Fin 256} (b : Fin 256) :
    (a.val = 0 → isPrivateRange a b = true) ∧ (a.val = 15 → isPrivateRange a b = false) ∧
      (224 ≤ a.val → isPrivateRange a b = true) := by
  refine ⟨fun h => ?_, fun h => ?_, fun h => ?_⟩
  · have ha : a = 0 := Fin.ext h
    simp [isPrivateRange, ha]
  · have ha : a = 15 := Fin.ext h
    simp [isPrivateRange, ha]
  · have ha : 224 ≤ a := h
    simp [isPrivateRange, ha]

/-- **The digits and the number of a group.** -/
theorem group_local (g : Group) :
    (isLocal g.values = true ∧ g.values.length = 4 ↔
      (0xfc00 ≤ g.value.val ∧ g.value.val ≤ 0xfdff) ∨ (0xfe80 ≤ g.value.val ∧ g.value.val ≤ 0xfebf)) ∧
    (isLocal g.values = true → 0 < g.value.val ∧
      (isPrivateRange ⟨g.value / 256, by omega⟩ ⟨g.value % 256, by omega⟩ = true ↔ g.values.length ≠ 3)) := by
  have hvalue := g.value_eq
  have hshort : g.values.length ≤ 4 := by
    unfold Group.values
    rw [List.length_map]
    exact g.short
  rcases hvalues : g.values with _ | ⟨a, _ | ⟨b, _ | ⟨c, _ | ⟨d, _ | ⟨e, vs⟩⟩⟩⟩⟩
  · exact absurd (List.map_eq_nil_iff.1 hvalues) g.nonempty
  · rw [hvalues] at hvalue
    simp only [List.foldl_cons, List.foldl_nil] at hvalue
    refine ⟨?_, ?_⟩
    · simp only [List.length_cons, List.length_nil]
      omega
    · rw [(isLocal_one a).1]
      exact fun h => nomatch h
  · rw [hvalues] at hvalue
    simp only [List.foldl_cons, List.foldl_nil] at hvalue
    rw [isLocal_iff_two]
    simp only [List.length_cons, List.length_nil]
    refine ⟨by omega, fun h => ⟨by omega, fun _ => by omega, fun _ => (isPrivateRange_first _).1 ?_⟩⟩
    show g.value.val / 256 = 0
    omega
  · rw [hvalues] at hvalue
    simp only [List.foldl_cons, List.foldl_nil] at hvalue
    rw [isLocal_iff]
    simp only [List.length_cons, List.length_nil]
    refine ⟨by omega, fun h => ⟨by omega, fun hrange => ?_, fun hlength => absurd rfl hlength⟩⟩
    rw [(isPrivateRange_first _).2.1 (show g.value.val / 256 = 15 by omega)] at hrange
    cases hrange
  · rw [hvalues] at hvalue
    simp only [List.foldl_cons, List.foldl_nil] at hvalue
    rw [isLocal_iff_more]
    simp only [List.length_cons, List.length_nil]
    have hdigits : a.val < 16 ∧ b.val < 16 ∧ c.val < 16 ∧ d.val < 16 := ⟨a.isLt, b.isLt, c.isLt, d.isLt⟩
    refine ⟨⟨fun h => by omega, fun h => ⟨?_, trivial⟩⟩, fun h => ⟨by omega, fun _ => by omega,
      fun _ => (isPrivateRange_first _).2.2 ?_⟩⟩
    · have ha : a.val = 15 := by omega
      refine ⟨ha, ?_⟩
      omega
    show 224 ≤ g.value.val / 256
    omega
  · rw [hvalues] at hshort
    simp only [List.length_cons] at hshort
    omega

/-- The reserved addresses that start with a zero group. -/
def isSpecial (x : V6) : Bool := x.isUnspecified || x.isLoopback || x.mapped.any fun d => isPrivateRange d.a d.b

theorem isReserved_iff {x : V6} {g : Fin 65536} (hg : x.groups.head? = some g) :
    isReserved (.v6 x) = true ↔ isSpecial x = true ∨ (0xfc00 ≤ g.val ∧ g.val ≤ 0xfdff) ∨ (0xfe80 ≤ g.val ∧ g.val ≤ 0xfebf) := by
  have hleads : ∀ low high, x.leads low high = true ↔ low ≤ g.val ∧ g.val ≤ high := fun low high => by
    simp [V6.leads, hg]
  simp only [isReserved, isSpecial, V6.isUniqueLocal, V6.isLinkLocal, Bool.or_eq_true, hleads]
  tauto

theorem head_of_special {x : V6} (h : isSpecial x = true) : x.groups.head? = some 0 := by
  simp only [isSpecial, Bool.or_eq_true] at h
  rcases h with (h | h) | h
  · simp only [V6.isUnspecified, decide_eq_true_eq] at h
    rw [h]
    rfl
  · simp only [V6.isLoopback, decide_eq_true_eq] at h
    rw [h]
    rfl
  · obtain ⟨d, hd, -⟩ := (Option.any_eq_true _ _).1 h
    obtain ⟨g, k, hgroups, -⟩ := V6.mapped_eq_some hd
    rw [hgroups]
    rfl

/-- What is missed is special. -/
theorem special_of_missed {s : Spelling} (h : Missed s) : isSpecial s.value = true := by
  simp only [isSpecial, Bool.or_eq_true]
  rcases h with ⟨h, -⟩ | ⟨h, -⟩ | ⟨h, -⟩
  · exact Or.inl (Or.inl h)
  · exact Or.inl (Or.inr h)
  · exact Or.inr h

/-- What is special and written in none of the three ways is missed. -/
theorem missed_of_special {s : Spelling} (h : isSpecial s.value = true)
    (hzero : ¬(s.front = [] ∧ s.behind = some [] ∧ s.last = none)) (hone : ¬WrittenOne s) (hmapped : ¬WrittenMapped s) :
    Missed s := by
  simp only [isSpecial, Bool.or_eq_true] at h
  rcases h with (h | h) | h
  · exact Or.inl ⟨h, hzero⟩
  · exact Or.inr (Or.inl ⟨h, hone⟩)
  · exact Or.inr (Or.inr ⟨h, hmapped⟩)

/-- With a group in front it decides. -/
theorem judged_front {s : Spelling} {g : Group} {rest : List Group} (hfront : s.front = g :: rest) :
    (Missed s ↔ isReserved (.v6 s.value) = true ∧ judged s = false) ∧
      (Overblocked s ↔ judged s = true ∧ isReserved (.v6 s.value) = false) := by
  have hjudged : judged s = isLocal g.values := by
    unfold judged
    rw [hfront]
  have hhead : s.value.groups.head? = some g.value := by
    show s.groups.head? = _
    unfold Spelling.groups
    rw [hfront]
    rfl
  have hreserved := isReserved_iff hhead
  have hspecial : isSpecial s.value = true → g.value = 0 := fun h =>
    Option.some.inj (hhead.symm.trans (head_of_special h))
  have hnil : s.front ≠ [] := by
    rw [hfront]
    exact List.cons_ne_nil _ _
  obtain ⟨hfour, hpos⟩ := group_local g
  have hlength : g.values.length ≤ 4 := by
    unfold Group.values
    rw [List.length_map]
    exact g.short
  rw [hjudged]
  cases hlocal : isLocal g.values with
  | true =>
    rw [hlocal] at hfour hpos
    have hnot : ¬isSpecial s.value = true := fun h => by
      have hzero := (hpos rfl).1
      rw [hspecial h] at hzero
      exact absurd hzero (by decide)
    refine ⟨⟨fun h => absurd (special_of_missed h) hnot, fun h => nomatch h.2⟩, ⟨fun h => ⟨rfl, ?_⟩, fun h => ?_⟩⟩
    · rw [← Bool.not_eq_true, hreserved]
      rintro (hs | hrange)
      · exact hnot hs
      · rcases h with ⟨g', rest', heq, -, hshort⟩ | ⟨h, -⟩
        · rw [hfront] at heq
          rw [(List.cons.inj heq).1] at hfour hrange
          have := (hfour.2 hrange).2
          omega
        · exact hnil h
    · refine Or.inl ⟨g, rest, hfront, hlocal, ?_⟩
      by_contra hlong
      have hrange := hfour.1 ⟨rfl, by omega⟩
      rw [hreserved.2 (Or.inr hrange)] at h
      cases h.2
  | false =>
    rw [hlocal] at hfour
    have hrange : ¬((0xfc00 ≤ g.value.val ∧ g.value.val ≤ 0xfdff) ∨ (0xfe80 ≤ g.value.val ∧ g.value.val ≤ 0xfebf)) :=
      fun h => Bool.false_ne_true (hfour.2 h).1
    refine ⟨⟨fun h => ⟨hreserved.2 (Or.inl (special_of_missed h)), rfl⟩, fun h => ?_⟩, ⟨fun h => ?_, fun h => nomatch h.1⟩⟩
    · exact missed_of_special ((hreserved.1 h.1).resolve_right hrange) (fun h => hnil h.1) (fun h => hnil h.1)
        fun h => hnil h.1
    · rcases h with ⟨g', rest', heq, h, -⟩ | ⟨h, -⟩
      · rw [hfront] at heq
        rw [← (List.cons.inj heq).1, hlocal] at h
        cases h
      · exact absurd h hnil

/-! ### Nothing in front of the gap -/

section gap

variable {s : Spelling} {behind : List Group}

theorem gap_groups (hfront : s.front = []) (hbehind : s.behind = some behind) :
    behind.length + (s.last.elim 0 fun _ => 2) ≤ 7 ∧
      s.value.groups = List.replicate (8 - (behind.length + s.last.elim 0 fun _ => 2)) 0 ++
        (behind.map Group.value ++ s.last.elim [] V4.groups) := by
  have hfits := s.fits
  have hlength : (s.last.elim [] V4.groups).length = s.last.elim 0 fun _ => 2 := by
    cases s.last <;> rfl
  rw [hfront, hbehind] at hfits
  refine ⟨by simpa using hfits, ?_⟩
  show s.groups = _
  unfold Spelling.groups
  rw [hfront, hbehind]
  simp only [List.map_nil, List.nil_append, Option.getD_some, List.length_append, List.length_map, hlength,
    List.length_nil, Nat.sub_zero]

theorem reserved_gap (hfront : s.front = []) (hbehind : s.behind = some behind) :
    isReserved (.v6 s.value) = isSpecial s.value := by
  obtain ⟨hle, hgroups⟩ := gap_groups hfront hbehind
  have hhead : s.value.groups.head? = some 0 := by
    rw [hgroups]
    obtain ⟨m, hm⟩ : ∃ m, 8 - (behind.length + s.last.elim 0 fun _ => 2) = m + 1 :=
      ⟨7 - (behind.length + s.last.elim 0 fun _ => 2), by omega⟩
    rw [hm, List.replicate_succ]
    rfl
  rw [Bool.eq_iff_iff, isReserved_iff hhead]
  refine ⟨fun h => h.resolve_right ?_, Or.inl⟩
  decide

/-- The places in which a spelling is judged as its address: what is special is missed, and nothing is refused. -/
theorem judged_false (hfront : s.front = []) (hbehind : s.behind = some behind) (hjudged : judged s = false)
    (hzero : ¬(behind = [] ∧ s.last = none)) (hone : ¬WrittenOne s) (hmapped : ¬WrittenMapped s)
    (hover : ¬Overblocked s) :
    (Missed s ↔ isReserved (.v6 s.value) = true ∧ judged s = false) ∧
      (Overblocked s ↔ judged s = true ∧ isReserved (.v6 s.value) = false) := by
  rw [reserved_gap hfront hbehind, hjudged]
  refine ⟨⟨fun h => ⟨special_of_missed h, rfl⟩, fun h => missed_of_special h.1 (fun h => hzero ?_) hone hmapped⟩,
    ⟨fun h => absurd h hover, fun h => nomatch h.1⟩⟩
  rw [hbehind] at h
  exact ⟨Option.some.inj h.2.1, h.2.2⟩

/-- A special address that is judged so is not missed, whatever the writing. -/
theorem judged_true (hfront : s.front = []) (hbehind : s.behind = some behind) (hjudged : judged s = true)
    (hspecial : isSpecial s.value = true) (hmissed : ¬Missed s) (hover : ¬Overblocked s) :
    (Missed s ↔ isReserved (.v6 s.value) = true ∧ judged s = false) ∧
      (Overblocked s ↔ judged s = true ∧ isReserved (.v6 s.value) = false) := by
  rw [reserved_gap hfront hbehind, hjudged, hspecial]
  exact ⟨⟨fun h => absurd h hmissed, fun h => nomatch h.2⟩, ⟨fun h => absurd h hover, fun h => nomatch h.2⟩⟩

/-- All ones and a further group: the address is special only as an IPv4 one. -/
theorem ones_special {g h : Group} {rest : List Group} (hfront : s.front = []) (hbehind : s.behind = some (g :: h :: rest))
    (hones : g.values = allOnes) :
    isSpecial s.value = true ↔ (rest.length = 1 ∧ s.last = none) ∧
      isPrivateRange ⟨h.value / 256, by omega⟩ ⟨h.value % 256, by omega⟩ = true := by
  obtain ⟨hle, hgroups⟩ := gap_groups hfront hbehind
  have hvalue : g.value = 65535 := by
    have heq := g.value_eq
    rw [hones] at heq
    exact Fin.ext heq
  rw [List.map_cons, List.map_cons, hvalue] at hgroups
  simp only [List.length_cons] at hle hgroups
  by_cases hexact : rest.length = 1 ∧ s.last = none
  · obtain ⟨k, rfl⟩ := List.length_eq_one_iff.1 hexact.1
    rw [hexact.2] at hgroups
    have hgroups : s.value.groups = [0, 0, 0, 0, 0, 65535, h.value, k.value] := hgroups
    have hunspecified : s.value.isUnspecified = false := by simp [V6.isUnspecified, hgroups]
    have hloopback : s.value.isLoopback = false := by simp [V6.isLoopback, hgroups]
    unfold isSpecial
    rw [hunspecified, hloopback, V6.mapped_of_groups hgroups]
    simp [hexact.2, V4.ofGroups]
  · refine ⟨fun hspecial => ?_, fun h => absurd h.1 hexact⟩
    exfalso
    have hmem : (65535 : Fin 65536) ∈ s.value.groups := by
      rw [hgroups]
      simp
    simp only [isSpecial, Bool.or_eq_true] at hspecial
    rcases hspecial with (hspecial | hspecial) | hspecial
    · simp only [V6.isUnspecified, decide_eq_true_eq] at hspecial
      rw [hspecial] at hmem
      exact absurd hmem (by decide)
    · simp only [V6.isLoopback, decide_eq_true_eq] at hspecial
      rw [hspecial] at hmem
      exact absurd hmem (by decide)
    · obtain ⟨d, hd, -⟩ := (Option.any_eq_true _ _).1 hspecial
      obtain ⟨a, b, height, -⟩ := V6.mapped_eq_some hd
      generalize hl : (s.last.elim 0 fun _ => 2) = l at hle hgroups
      have hcount : rest.length + l ≠ 1 := by
        cases hlast : s.last with
        | none =>
          rw [hlast] at hl
          exact fun heq => hexact ⟨by rw [← hl] at heq; exact heq, hlast⟩
        | some x =>
          rw [hlast] at hl
          have hl : 2 = l := hl
          omega
      -- all ones stand in the place behind the gap, which is not the sixth
      obtain ⟨m, hm⟩ : ∃ m, 8 - (rest.length + 1 + 1 + l) = m := ⟨_, rfl⟩
      rw [hm, height] at hgroups
      have hplace : [0, 0, 0, 0, 0, 65535, a, b][m]? = some (65535 : Fin 65536) := by
        rw [hgroups, List.getElem?_append_right (by simp), List.length_replicate, Nat.sub_self]
        rfl
      have hm : m = 1 ∨ m = 2 ∨ m = 3 ∨ m = 4 ∨ m = 6 := by omega
      rcases hm with rfl | rfl | rfl | rfl | rfl
      · simp at hplace
      · simp at hplace
      · simp at hplace
      · simp at hplace
      · have hfive := congrArg (fun l : List (Fin 65536) => l[5]?) hgroups
        simp [List.replicate] at hfive

theorem judged_gap (hfront : s.front = []) (hbehind : s.behind = some behind) :
    (Missed s ↔ isReserved (.v6 s.value) = true ∧ judged s = false) ∧
      (Overblocked s ↔ judged s = true ∧ isReserved (.v6 s.value) = false) := by
  obtain ⟨hle, hgroups⟩ := gap_groups hfront hbehind
  have hjudged : judged s = judged s := rfl
  conv_rhs at hjudged => unfold judged
  rw [hfront, hbehind] at hjudged
  -- what a written form says of the groups behind the gap
  have hover : Overblocked s → ∃ g h rest, behind = g :: h :: rest ∧ g.values = allOnes ∧ isLocal h.values = true := by
    rintro (⟨g, rest, heq, -⟩ | ⟨-, g, h, rest, heq, hones, hlocal, -⟩)
    · rw [hfront] at heq
      cases heq
    · exact ⟨g, h, rest, Option.some.inj (hbehind.symm.trans heq), hones, hlocal⟩
  have hwritten : WrittenMapped s → ∃ g more, behind = g :: more ∧ g.values = allOnes ∧
      ((more = [] ∧ s.last ≠ none) ∨ ∃ h rest, more = h :: rest ∧ isLocal h.values = true) := by
    rintro ⟨-, g, more, heq, h⟩
    exact ⟨g, more, Option.some.inj (hbehind.symm.trans heq), h⟩
  have hone : WrittenOne s → s.last = none ∧ ∃ g, behind = [g] ∧ g.values = [1] := by
    rintro ⟨-, hlast, g, heq, h⟩
    exact ⟨hlast, g, Option.some.inj (hbehind.symm.trans heq), h⟩
  cases behind with
  | nil =>
    cases hlast : s.last with
    | none =>
      rw [hlast] at hgroups hjudged
      have hgroups : s.value.groups = [0, 0, 0, 0, 0, 0, 0, 0] := hgroups
      have hloopback : s.value.isLoopback = false := by simp [V6.isLoopback, hgroups]
      have hmapped : s.value.mapped = none := by simp [V6.mapped, hgroups]
      refine judged_true hfront hbehind hjudged ?_ ?_ fun h => ?_
      · simp [isSpecial, V6.isUnspecified, hgroups]
      · rintro (⟨-, h⟩ | ⟨h, -⟩ | ⟨h, -⟩)
        · exact h ⟨hfront, hbehind, hlast⟩
        · rw [hloopback] at h
          cases h
        · rw [hmapped] at h
          cases h
      · obtain ⟨g, k, rest, heq, -⟩ := hover h
        cases heq
    | some x =>
      rw [hlast] at hjudged
      refine judged_false hfront hbehind hjudged (fun h => ?_) (fun h => ?_) (fun h => ?_) fun h => ?_
      · rw [hlast] at h
        exact nomatch h.2
      · obtain ⟨-, g, heq, -⟩ := hone h
        cases heq
      · obtain ⟨g, more, heq, -⟩ := hwritten h
        cases heq
      · obtain ⟨g, k, rest, heq, -⟩ := hover h
        cases heq
  | cons g more =>
    simp only [] at hjudged
    by_cases h1 : g.values = [1] ∧ more = [] ∧ s.last = none
    · rw [if_pos h1] at hjudged
      obtain ⟨hg, rfl, hlast⟩ := h1
      have hvalue : g.value = 1 := by
        have heq := g.value_eq
        rw [hg] at heq
        exact Fin.ext heq
      rw [hlast] at hgroups
      have hgroups : s.value.groups = [0, 0, 0, 0, 0, 0, 0, 1] := by
        rw [hgroups, List.map_cons, hvalue]
        rfl
      have hunspecified : s.value.isUnspecified = false := by simp [V6.isUnspecified, hgroups]
      have hmapped : s.value.mapped = none := by simp [V6.mapped, hgroups]
      refine judged_true hfront hbehind hjudged ?_ ?_ fun h => ?_
      · simp [isSpecial, V6.isLoopback, hgroups]
      · rintro (⟨h, -⟩ | ⟨-, h⟩ | ⟨h, -⟩)
        · rw [hunspecified] at h
          cases h
        · exact h ⟨hfront, hlast, g, hbehind, hg⟩
        · rw [hmapped] at h
          cases h
      · obtain ⟨g', k, rest, heq, -⟩ := hover h
        cases heq
    · rw [if_neg h1] at hjudged
      by_cases h4 : g.values = allOnes
      · rw [if_pos h4] at hjudged
        have hnone : ¬WrittenOne s := fun h => by
          obtain ⟨-, g', heq, hg⟩ := hone h
          rw [← (List.cons.inj heq).1, h4] at hg
          exact absurd hg (by decide)
        have hvalue : g.value = 65535 := by
          have heq := g.value_eq
          rw [h4] at heq
          exact Fin.ext heq
        have hmem : (65535 : Fin 65536) ∈ s.value.groups := by
          rw [hgroups, List.map_cons, hvalue]
          simp
        have hunspecified : ¬s.value.isUnspecified = true := fun h => by
          simp only [V6.isUnspecified, decide_eq_true_eq] at h
          rw [h] at hmem
          exact absurd hmem (by decide)
        have hloopback : ¬s.value.isLoopback = true := fun h => by
          simp only [V6.isLoopback, decide_eq_true_eq] at h
          rw [h] at hmem
          exact absurd hmem (by decide)
        -- written as a mapped address it is not missed
        have hmissed : WrittenMapped s → ¬Missed s := by
          rintro hwritten (⟨h, -⟩ | ⟨h, -⟩ | ⟨-, h⟩)
          · exact hunspecified h
          · exact hloopback h
          · exact h hwritten
        cases more with
        | nil =>
          have hnever : ¬Overblocked s := fun h => by
            obtain ⟨g', k, rest, heq, -⟩ := hover h
            cases heq
          cases hlast : s.last with
          | none =>
            rw [hlast] at hjudged
            refine judged_false hfront hbehind hjudged (fun h => nomatch h.1) hnone (fun h => ?_) hnever
            obtain ⟨g', more', heq, -, h | ⟨k, rest, hmore, -⟩⟩ := hwritten h
            · exact h.2 hlast
            · rw [hmore] at heq
              cases heq
          | some x =>
            rw [hlast] at hjudged hgroups
            have hgroups : s.value.groups = [0, 0, 0, 0, 0, 65535] ++ x.groups := by
              rw [hgroups, List.map_cons, hvalue]
              rfl
            have hmapped : s.value.mapped = some x := by
              rw [V6.mapped_of_groups hgroups, V4.ofGroups_groups]
            have hspecial : isSpecial s.value = isPrivateRange x.a x.b := by
              unfold isSpecial
              rw [Bool.eq_false_iff.2 hunspecified, Bool.eq_false_iff.2 hloopback, hmapped]
              rfl
            have hnot : ¬Missed s :=
              hmissed ⟨hfront, g, [], hbehind, h4, Or.inl ⟨rfl, by rw [hlast]; exact Option.some_ne_none x⟩⟩
            rw [reserved_gap hfront hbehind, hjudged, hspecial]
            refine ⟨⟨fun h => absurd h hnot, fun h => ?_⟩, ⟨fun h => absurd h hnever, fun h => ?_⟩⟩
            · exact absurd (h.1.symm.trans h.2) (by decide)
            · exact absurd (h.1.symm.trans h.2) (by decide)
        | cons k rest =>
          cases hlocal : isLocal k.values with
          | false =>
            refine judged_false hfront hbehind (hjudged.trans hlocal) (fun h => nomatch h.1) hnone (fun h => ?_) fun h => ?_
            · obtain ⟨g', more', heq, -, h | ⟨k', rest', hmore, hk⟩⟩ := hwritten h
              · rw [h.1] at heq
                cases heq
              · rw [hmore] at heq
                rw [← (List.cons.inj (List.cons.inj heq).2).1, hlocal] at hk
                cases hk
            · obtain ⟨g', k', rest', heq, -, hk⟩ := hover h
              rw [← (List.cons.inj (List.cons.inj heq).2).1, hlocal] at hk
              cases hk
          | true =>
            have hjudged : judged s = true := hjudged.trans hlocal
            have hspecial := ones_special hfront hbehind h4
            rw [((group_local k).2 hlocal).2] at hspecial
            have hnot : ¬Missed s := hmissed ⟨hfront, g, k :: rest, hbehind, h4, Or.inr ⟨k, rest, rfl, hlocal⟩⟩
            rw [reserved_gap hfront hbehind, hjudged]
            refine ⟨⟨fun h => absurd h hnot, fun h => nomatch h.2⟩, ⟨fun h => ⟨rfl, ?_⟩, fun h => ?_⟩⟩
            · rw [← Bool.not_eq_true, hspecial]
              rcases h with ⟨g', rest', heq, -⟩ | ⟨-, g', k', rest', heq, -, -, hexact⟩
              · rw [hfront] at heq
                cases heq
              · have heq := Option.some.inj (hbehind.symm.trans heq)
                obtain ⟨rfl, rfl⟩ := List.cons.inj (List.cons.inj heq).2
                exact fun h => hexact ⟨h.1.1, h.1.2, h.2⟩
            · refine Or.inr ⟨hfront, g, k, rest, hbehind, h4, hlocal, fun hexact => ?_⟩
              exact absurd (h.2.symm.trans (hspecial.2 ⟨⟨hexact.1, hexact.2.1⟩, hexact.2.2⟩)) (by decide)
      · rw [if_neg h4] at hjudged
        refine judged_false hfront hbehind hjudged (fun h => nomatch h.1) (fun h => ?_) (fun h => ?_) fun h => ?_
        · obtain ⟨hlast, g', heq, hg⟩ := hone h
          obtain ⟨rfl, rfl⟩ := List.cons.inj heq
          exact h1 ⟨hg, rfl, hlast⟩
        · obtain ⟨g', more', heq, hones, -⟩ := hwritten h
          exact h4 ((List.cons.inj heq).1 ▸ hones)
        · obtain ⟨g', k, rest, heq, hones, -⟩ := hover h
          exact h4 ((List.cons.inj heq).1 ▸ hones)

end gap

theorem judged_cases (s : Spelling) :
    (Missed s ↔ isReserved (.v6 s.value) = true ∧ judged s = false) ∧
      (Overblocked s ↔ judged s = true ∧ isReserved (.v6 s.value) = false) := by
  cases hfront : s.front with
  | cons g rest => exact judged_front hfront
  | nil =>
    cases hbehind : s.behind with
    | some behind => exact judged_gap hfront hbehind
    | none =>
      have hfits := s.fits
      rw [hfront, hbehind] at hfits
      cases hlast : s.last <;> simp [hlast] at hfits

/-- **A text is judged as its address** but for these spellings. -/
theorem isPrivateAddress_iff (form : Form) : isPrivateAddress form.text = isReserved form.value ↔
    ∀ s, form = .v6 s → ¬Missed s ∧ ¬Overblocked s := by
  cases form with
  | v4 x => exact ⟨fun _ s h => (nomatch h), fun _ => isPrivateAddress_v4 x⟩
  | v6 s =>
    obtain ⟨hmissed, hover⟩ := judged_cases s
    show isPrivateAddress s.text = isReserved (.v6 s.value) ↔ _
    rw [isPrivateAddress_text]
    refine ⟨fun h s' hs => ?_, fun h => ?_⟩
    · cases hs
      rw [hmissed, hover, h]
      exact ⟨fun h => absurd (h.1.symm.trans h.2) (by decide), fun h => absurd (h.1.symm.trans h.2) (by decide)⟩
    · obtain ⟨hm, ho⟩ := h s rfl
      rw [hmissed] at hm
      rw [hover] at ho
      cases hj : judged s <;> cases hr : isReserved (.v6 s.value) <;> simp_all

end Zenod.Subscribers
