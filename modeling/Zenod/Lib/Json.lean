/-
JSON values and their text. An object is a list of entries, in the order in
which they are written.

`print_injective`: a text is the text of one value. `Same` is equality up to
the order of the entries of objects, and `sortKeys` puts them in the order of a
collation. `sortKeys_exact_iff`: that tells values apart exactly when they
are not the same, if and only if no two keys of an object collate equal.
-/
import Mathlib.Data.List.Pairwise
import Mathlib.Data.List.Perm.Basic
import Zenod.Lib.Text

namespace Zenod

/-- What a number is written with. -/
def isNumberChar (c : Char) : Bool := "0123456789+-.eE".toList.contains c

/-- A number, by its text. -/
structure JsonNumber where
  text : Text
  nonempty : text ≠ []
  chars : text.all isNumberChar = true
deriving DecidableEq

inductive Json
  | null
  | bool (b : Bool)
  | num (n : JsonNumber)
  | str (t : Text)
  | arr (items : List Json)
  | obj (entries : List (Text × Json))

namespace Json

/-! ## The text of a value -/

mutual

/-- `JSON.stringify`. -/
def print : Json → Text
  | null => "null".toList
  | bool true => "true".toList
  | bool false => "false".toList
  | num n => n.text
  | str t => Js.quote (String.ofList t)
  | arr items => '[' :: printItems items ++ [']']
  | obj entries => '\x7b' :: printEntries entries ++ ['\x7d']

/-- The items, separated by commas. -/
def printItems : List Json → Text
  | [] => []
  | v :: rest => v.print ++ printMoreItems rest

def printMoreItems : List Json → Text
  | [] => []
  | v :: rest => ',' :: v.print ++ printMoreItems rest

def printEntries : List (Text × Json) → Text
  | [] => []
  | (key, v) :: rest => Js.quote (String.ofList key) ++ ':' :: v.print ++ printMoreEntries rest

def printMoreEntries : List (Text × Json) → Text
  | [] => []
  | (key, v) :: rest => ',' :: Js.quote (String.ofList key) ++ ':' :: v.print ++ printMoreEntries rest

end

/-! ## A text is the text of one value -/

/-- What stands behind does not go on with a number. -/
def Ends (s : Text) : Prop := ∀ c ∈ s.head?, isNumberChar c = false

/-- What a value is, by its first character. -/
def kindOf (c : Char) : Nat :=
  if isNumberChar c then 3
  else if c = 'n' then 0
  else if c = 't' then 1
  else if c = 'f' then 2
  else if c = Char.ofNat 0x22 then 4
  else if c = '[' then 5
  else if c = '\x7b' then 6
  else 7

def kind : Json → Nat
  | null => 0
  | bool true => 1
  | bool false => 2
  | num _ => 3
  | str _ => 4
  | arr _ => 5
  | obj _ => 6

theorem print_head (v : Json) : ∃ c t, v.print = c :: t ∧ kindOf c = v.kind := by
  cases v with
  | null => exact ⟨_, _, rfl, by decide⟩
  | bool b => cases b <;> exact ⟨_, _, rfl, by decide⟩
  | num n =>
    obtain ⟨c, t, htext⟩ := List.exists_cons_of_ne_nil n.nonempty
    refine ⟨c, t, by rw [print, htext], if_pos ?_⟩
    exact List.all_eq_true.1 n.chars c (by rw [htext]; exact List.mem_cons_self)
  | str t => exact ⟨_, _, rfl, show kindOf (Char.ofNat 0x22) = 4 by decide⟩
  | arr items => exact ⟨_, _, rfl, show kindOf '[' = 5 by decide⟩
  | obj entries => exact ⟨_, _, rfl, show kindOf '\x7b' = 6 by decide⟩

theorem kind_le (v : Json) : v.kind ≤ 6 := by
  cases v with
  | bool b => cases b <;> decide
  | _ => simp only [kind]; omega

theorem kind_eq {a b : Json} {s t : Text} (h : a.print ++ s = b.print ++ t) : a.kind = b.kind := by
  obtain ⟨c, u, ha, hc⟩ := print_head a
  obtain ⟨d, v, hb, hd⟩ := print_head b
  rw [ha, hb] at h
  rw [← hc, ← hd, (List.cons.inj h).1]

/-- A number goes on as long as its characters do. -/
theorem takeWhile_number {n s : Text} (hn : n.all isNumberChar = true) (hs : Ends s) :
    (n ++ s).takeWhile isNumberChar = n := by
  rw [List.takeWhile_append_of_pos (List.all_eq_true.1 hn)]
  cases s with
  | nil => exact List.append_nil n
  | cons c s =>
    have hc : isNumberChar c = false := hs c rfl
    rw [List.takeWhile_cons_of_neg (by rw [hc]; exact Bool.false_ne_true)]
    exact List.append_nil n

theorem number_append_inj {n m s t : Text} (hn : n.all isNumberChar = true) (hm : m.all isNumberChar = true)
    (hs : Ends s) (ht : Ends t) (h : n ++ s = m ++ t) : n = m ∧ s = t := by
  have hnm : n = m := by rw [← takeWhile_number hn hs, h, takeWhile_number hm ht]
  rw [hnm] at h
  exact ⟨hnm, List.append_cancel_left h⟩

theorem ends_moreItems (l : List Json) (s : Text) : Ends (printMoreItems l ++ ']' :: s) := by
  intro c hc
  cases l with
  | nil => rw [← Option.some.inj hc]; decide
  | cons v rest =>
    rw [printMoreItems] at hc
    rw [← Option.some.inj hc]
    decide

theorem ends_moreEntries (l : List (Text × Json)) (s : Text) : Ends (printMoreEntries l ++ '\x7d' :: s) := by
  intro c hc
  cases l with
  | nil => rw [← Option.some.inj hc]; decide
  | cons e rest =>
    obtain ⟨key, v⟩ := e
    rw [printMoreEntries] at hc
    rw [← Option.some.inj hc]
    decide

theorem print_ne_cons {v : Json} {c : Char} {s t : Text} (hc : kindOf c = 7) : v.print ++ s ≠ c :: t := by
  intro h
  obtain ⟨d, u, hv, hd⟩ := print_head v
  rw [hv] at h
  have hle := kind_le v
  rw [← hd, (List.cons.inj h).1, hc] at hle
  omega

mutual

/-- **Where a value ends is told by the text.** -/
theorem print_append_inj : ∀ (a b : Json) {s t : Text}, Ends s → Ends t → a.print ++ s = b.print ++ t → a = b ∧ s = t
  | null, b, s, t, hs, ht, h => by
    have hkind := kind_eq h
    cases b with
    | null => exact ⟨rfl, List.append_cancel_left h⟩
    | bool b => cases b <;> cases hkind
    | _ => cases hkind
  | bool a, b, s, t, hs, ht, h => by
    have hkind := kind_eq h
    cases b with
    | bool b =>
      cases a <;> cases b
      · exact ⟨rfl, List.append_cancel_left h⟩
      · cases hkind
      · cases hkind
      · exact ⟨rfl, List.append_cancel_left h⟩
    | _ => cases a <;> cases hkind
  | num n, b, s, t, hs, ht, h => by
    have hkind := kind_eq h
    cases b with
    | num m =>
      obtain ⟨htext, hst⟩ := number_append_inj n.chars m.chars hs ht h
      obtain ⟨text, _, _⟩ := n
      obtain ⟨_, _, _⟩ := m
      cases htext
      exact ⟨rfl, hst⟩
    | bool b => cases b <;> cases hkind
    | _ => cases hkind
  | str u, b, s, t, hs, ht, h => by
    have hkind := kind_eq h
    cases b with
    | str v =>
      obtain ⟨htext, hst⟩ := Js.quote_append_inj h
      exact ⟨congrArg str (String.ofList_injective htext), hst⟩
    | bool b => cases b <;> cases hkind
    | _ => cases hkind
  | arr l, b, s, t, hs, ht, h => by
    have hkind := kind_eq h
    cases b with
    | arr m =>
      simp only [print, List.cons_append, List.append_assoc, List.nil_append] at h
      obtain ⟨rfl, hst⟩ := printItems_append_inj l m (List.cons.inj h).2
      exact ⟨rfl, hst⟩
    | bool b => cases b <;> cases hkind
    | _ => cases hkind
  | obj l, b, s, t, hs, ht, h => by
    have hkind := kind_eq h
    cases b with
    | obj m =>
      simp only [print, List.cons_append, List.append_assoc, List.nil_append] at h
      obtain ⟨rfl, hst⟩ := printEntries_append_inj l m (List.cons.inj h).2
      exact ⟨rfl, hst⟩
    | bool b => cases b <;> cases hkind
    | _ => cases hkind

theorem printItems_append_inj : ∀ (l m : List Json) {s t : Text},
    printItems l ++ ']' :: s = printItems m ++ ']' :: t → l = m ∧ s = t
  | [], [], s, t, h => ⟨rfl, (List.cons.inj h).2⟩
  | [], w :: m, s, t, h => by
    rw [printItems, printItems, List.append_assoc] at h
    exact absurd h.symm (print_ne_cons (by decide))
  | v :: l, [], s, t, h => by
    rw [printItems, printItems, List.append_assoc] at h
    exact absurd h (print_ne_cons (by decide))
  | v :: l, w :: m, s, t, h => by
    rw [printItems, printItems, List.append_assoc, List.append_assoc] at h
    obtain ⟨rfl, hrest⟩ := print_append_inj v w (ends_moreItems l s) (ends_moreItems m t) h
    obtain ⟨rfl, hst⟩ := printMoreItems_append_inj l m hrest
    exact ⟨rfl, hst⟩

theorem printMoreItems_append_inj : ∀ (l m : List Json) {s t : Text},
    printMoreItems l ++ ']' :: s = printMoreItems m ++ ']' :: t → l = m ∧ s = t
  | [], [], s, t, h => ⟨rfl, (List.cons.inj h).2⟩
  | [], w :: m, s, t, h => absurd (List.cons.inj h).1 (by decide)
  | v :: l, [], s, t, h => absurd (List.cons.inj h).1 (by decide)
  | v :: l, w :: m, s, t, h => by
    simp only [printMoreItems, List.cons_append, List.append_assoc] at h
    obtain ⟨rfl, hrest⟩ := print_append_inj v w (ends_moreItems l s) (ends_moreItems m t) (List.cons.inj h).2
    obtain ⟨rfl, hst⟩ := printMoreItems_append_inj l m hrest
    exact ⟨rfl, hst⟩

theorem printEntries_append_inj : ∀ (l m : List (Text × Json)) {s t : Text},
    printEntries l ++ '\x7d' :: s = printEntries m ++ '\x7d' :: t → l = m ∧ s = t
  | [], [], s, t, h => ⟨rfl, (List.cons.inj h).2⟩
  | [], (k, w) :: m, s, t, h => absurd (List.cons.inj h).1 (by decide)
  | (k, v) :: l, [], s, t, h => absurd (List.cons.inj h).1 (by decide)
  | (k, v) :: l, (k', w) :: m, s, t, h => by
    simp only [printEntries, List.cons_append, List.append_assoc] at h
    obtain ⟨hkey, hvalue⟩ := Js.quote_append_inj h
    obtain rfl := String.ofList_injective hkey
    obtain ⟨rfl, hrest⟩ := print_append_inj v w (ends_moreEntries l s) (ends_moreEntries m t) (List.cons.inj hvalue).2
    obtain ⟨rfl, hst⟩ := printMoreEntries_append_inj l m hrest
    exact ⟨rfl, hst⟩

theorem printMoreEntries_append_inj : ∀ (l m : List (Text × Json)) {s t : Text},
    printMoreEntries l ++ '\x7d' :: s = printMoreEntries m ++ '\x7d' :: t → l = m ∧ s = t
  | [], [], s, t, h => ⟨rfl, (List.cons.inj h).2⟩
  | [], (k, w) :: m, s, t, h => absurd (List.cons.inj h).1 (by decide)
  | (k, v) :: l, [], s, t, h => absurd (List.cons.inj h).1 (by decide)
  | (k, v) :: l, (k', w) :: m, s, t, h => by
    simp only [printMoreEntries, List.cons_append, List.append_assoc] at h
    obtain ⟨hkey, hvalue⟩ := Js.quote_append_inj (List.cons.inj h).2
    obtain rfl := String.ofList_injective hkey
    obtain ⟨rfl, hrest⟩ := print_append_inj v w (ends_moreEntries l s) (ends_moreEntries m t) (List.cons.inj hvalue).2
    obtain ⟨rfl, hst⟩ := printMoreEntries_append_inj l m hrest
    exact ⟨rfl, hst⟩

end

theorem print_injective {a b : Json} (h : a.print = b.print) : a = b := by
  have hends : Ends [] := fun c hc => by cases hc
  exact (print_append_inj a b hends hends (by rw [h])).1

/-! ## Equality up to the order of entries -/

mutual

inductive Same : Json → Json → Prop
  | null : Same null null
  | bool (b : Bool) : Same (bool b) (bool b)
  | num (n : JsonNumber) : Same (num n) (num n)
  | str (t : Text) : Same (str t) (str t)
  | arr {l m : List Json} (h : SameItems l m) : Same (arr l) (arr m)
  | obj {l m n : List (Text × Json)} (h : SameEntries l m) (order : m.Perm n) : Same (obj l) (obj n)

inductive SameItems : List Json → List Json → Prop
  | nil : SameItems [] []
  | cons {v w : Json} {l m : List Json} (head : Same v w) (tail : SameItems l m) : SameItems (v :: l) (w :: m)

inductive SameEntries : List (Text × Json) → List (Text × Json) → Prop
  | nil : SameEntries [] []
  | cons {key : Text} {v w : Json} {l m : List (Text × Json)} (head : Same v w) (tail : SameEntries l m) :
    SameEntries ((key, v) :: l) ((key, w) :: m)

end

mutual

/-- The keys of each object are distinct. -/
def Distinct : Json → Prop
  | arr items => DistinctItems items
  | obj entries => (entries.map (·.1)).Nodup ∧ DistinctEntries entries
  | _ => True

def DistinctItems : List Json → Prop
  | [] => True
  | v :: rest => v.Distinct ∧ DistinctItems rest

def DistinctEntries : List (Text × Json) → Prop
  | [] => True
  | (_, v) :: rest => v.Distinct ∧ DistinctEntries rest

end

mutual

theorem Same.refl : ∀ a : Json, Same a a
  | null => .null
  | bool b => .bool b
  | num n => .num n
  | str t => .str t
  | arr items => .arr (SameItems.refl items)
  | obj entries => .obj (SameEntries.refl entries) (List.Perm.refl _)

theorem SameItems.refl : ∀ l : List Json, SameItems l l
  | [] => .nil
  | v :: rest => .cons (Same.refl v) (SameItems.refl rest)

theorem SameEntries.refl : ∀ l : List (Text × Json), SameEntries l l
  | [] => .nil
  | (_, v) :: rest => .cons (Same.refl v) (SameEntries.refl rest)

end

theorem distinctEntries_iff {l : List (Text × Json)} : DistinctEntries l ↔ ∀ e ∈ l, e.2.Distinct := by
  induction l with
  | nil => exact ⟨fun _ e he => (by cases he), fun _ => trivial⟩
  | cons e l ih =>
    obtain ⟨key, v⟩ := e
    rw [DistinctEntries, ih, List.forall_mem_cons]

/-! ## Sorting keys -/

end Json

/-- An order of texts in which different texts may be equal: what `localeCompare` compares by. -/
structure Collation where
  le : Text → Text → Bool
  total : ∀ a b, (le a b || le b a) = true
  trans : ∀ a b c, le a b = true → le b c = true → le a c = true

/-- `a.localeCompare(b) === 0`. -/
def Collation.tied (c : Collation) (a b : Text) : Bool := c.le a b && c.le b a

namespace Json

variable (c : Collation)

/-- Entries in the order of their keys; entries whose keys collate equal stay in their order. -/
def sortByKey (entries : List (Text × Json)) : List (Text × Json) := entries.insertionSort fun e d => c.le e.1 d.1 = true

mutual

/-- Each object's entries in the order of their keys. -/
def sortKeys : Json → Json
  | arr items => arr (sortItems items)
  | obj entries => obj (sortByKey c (sortEntries entries))
  | v => v

def sortItems : List Json → List Json
  | [] => []
  | v :: rest => sortKeys v :: sortItems rest

def sortEntries : List (Text × Json) → List (Text × Json)
  | [] => []
  | (key, v) :: rest => (key, sortKeys v) :: sortEntries rest

end

mutual

/-- No two keys of an object collate equal. -/
def NoTies : Json → Prop
  | arr items => NoTiesItems items
  | obj entries => entries.Pairwise (fun e d => c.tied e.1 d.1 = false) ∧ NoTiesEntries entries
  | _ => True

def NoTiesItems : List Json → Prop
  | [] => True
  | v :: rest => v.NoTies ∧ NoTiesItems rest

def NoTiesEntries : List (Text × Json) → Prop
  | [] => True
  | (_, v) :: rest => v.NoTies ∧ NoTiesEntries rest

end

variable {c}

theorem sortEntries_eq_map (l : List (Text × Json)) : sortEntries c l = l.map fun e => (e.1, sortKeys c e.2) := by
  induction l with
  | nil => rfl
  | cons e l ih =>
    obtain ⟨key, v⟩ := e
    rw [sortEntries, ih]
    rfl

theorem perm_sortByKey (l : List (Text × Json)) : (sortByKey c l).Perm l := List.perm_insertionSort _ l

theorem sorted_sortByKey (l : List (Text × Json)) : (sortByKey c l).Pairwise fun e d => c.le e.1 d.1 = true := by
  have : Std.Total fun e d : Text × Json => c.le e.1 d.1 = true := ⟨fun e d => by
    rcases Bool.or_eq_true_iff.1 (c.total e.1 d.1) with h | h
    · exact Or.inl h
    · exact Or.inr h⟩
  have : IsTrans (Text × Json) fun e d => c.le e.1 d.1 = true := ⟨fun e d f => c.trans e.1 d.1 f.1⟩
  exact List.pairwise_insertionSort _ l

/-- Reordered entries that sort alike stand against each other one by one. -/
theorem exists_perm_of_sorted_eq {l n : List (Text × Json)} (h : sortByKey c (sortEntries c l) = sortByKey c (sortEntries c n)) :
    ∃ m, m.Perm n ∧ sortEntries c l = sortEntries c m := by
  have hperm : (sortEntries c l).Perm (sortEntries c n) := by
    have hl := perm_sortByKey (c := c) (sortEntries c l)
    rw [h] at hl
    exact hl.symm.trans (perm_sortByKey _)
  simp only [sortEntries_eq_map] at hperm ⊢
  obtain ⟨m, hm, hmn⟩ := (congrFun (congrFun (List.eq_map_comp_perm fun e : Text × Json => (e.1, sortKeys c e.2)) _) n).mpr hperm
  exact ⟨m, hmn, hm⟩

mutual

/-- Values that sort to one value are the same. -/
theorem same_of_sortKeys_eq : ∀ a b : Json, sortKeys c a = sortKeys c b → Same a b
  | null, b, h => by cases b <;> cases h; exact .null
  | bool a, b, h => by cases b <;> cases h; exact .bool a
  | num n, b, h => by cases b <;> cases h; exact .num n
  | str t, b, h => by cases b <;> cases h; exact .str t
  | arr l, b, h => by
    cases b with
    | arr m => exact .arr (sameItems_of_eq l m (Json.arr.inj h))
    | _ => cases h
  | obj l, b, h => by
    cases b with
    | obj n =>
      obtain ⟨m, hmn, hlm⟩ := exists_perm_of_sorted_eq (Json.obj.inj h)
      exact .obj (sameEntries_of_eq l m hlm) hmn
    | _ => cases h

theorem sameItems_of_eq : ∀ l m : List Json, sortItems c l = sortItems c m → SameItems l m
  | [], [], _ => .nil
  | [], _ :: _, h => by cases h
  | _ :: _, [], h => by cases h
  | v :: l, w :: m, h => .cons (same_of_sortKeys_eq v w (List.cons.inj h).1) (sameItems_of_eq l m (List.cons.inj h).2)

theorem sameEntries_of_eq : ∀ l m : List (Text × Json), sortEntries c l = sortEntries c m → SameEntries l m
  | [], [], _ => .nil
  | [], _ :: _, h => by cases h
  | _ :: _, [], h => by cases h
  | (k, v) :: l, (k', w) :: m, h => by
    obtain ⟨hhead, htail⟩ := List.cons.inj h
    obtain ⟨rfl, hvalue⟩ := Prod.mk.inj hhead
    exact .cons (same_of_sortKeys_eq v w hvalue) (sameEntries_of_eq l m htail)

end

/-- Entries of which no two collate equal have one order. -/
theorem sortByKey_eq_of_perm {l m : List (Text × Json)} (h : l.Perm m)
    (hties : l.Pairwise fun e d => c.tied e.1 d.1 = false) : sortByKey c l = sortByKey c m := by
  refine List.Perm.eq_of_pairwise ?_ (sorted_sortByKey l) (sorted_sortByKey m)
    ((perm_sortByKey l).trans (h.trans (perm_sortByKey m).symm))
  intro e d he hd hed hde
  have he : e ∈ l := (perm_sortByKey l).mem_iff.1 he
  have hd : d ∈ l := h.mem_iff.2 ((perm_sortByKey m).mem_iff.1 hd)
  by_contra hne
  have : Std.Symm fun e d : Text × Json => c.tied e.1 d.1 = false := ⟨fun e d h => by
    show (c.le d.1 e.1 && c.le e.1 d.1) = false
    rw [Bool.and_comm]
    exact h⟩
  have htied : (c.le e.1 d.1 && c.le d.1 e.1) = false := hties.forall he hd hne
  rw [hed, hde] at htied
  cases htied

mutual

/-- Without ties, the same values sort to one. -/
theorem sortKeys_eq_of_same : ∀ a b : Json, Same a b → a.NoTies c → sortKeys c a = sortKeys c b
  | null, b, h, _ => by cases h; rfl
  | bool _, b, h, _ => by cases h; rfl
  | num _, b, h, _ => by cases h; rfl
  | str _, b, h, _ => by cases h; rfl
  | arr l, b, h, hties => by
    cases h with
    | arr h => exact congrArg arr (sortItems_eq_of_same l _ h hties)
  | obj l, b, h, hties => by
    cases h with
    | @obj _ m n h hperm =>
      have hvalues : sortEntries c l = sortEntries c m := sortEntries_eq_of_same l m h hties.2
      refine congrArg obj ?_
      show sortByKey c (sortEntries c l) = sortByKey c (sortEntries c n)
      have hpairs : (sortEntries c l).Pairwise fun e d => c.tied e.1 d.1 = false := by
        rw [sortEntries_eq_map]
        exact List.pairwise_map.2 hties.1
      refine sortByKey_eq_of_perm ?_ hpairs
      rw [hvalues, sortEntries_eq_map, sortEntries_eq_map]
      exact hperm.map _

theorem sortItems_eq_of_same : ∀ l m : List Json, SameItems l m → NoTiesItems c l → sortItems c l = sortItems c m
  | [], m, h, _ => by cases h; rfl
  | v :: l, m, h, hties => by
    cases h with
    | cons hhead htail =>
      rw [sortItems, sortItems, sortKeys_eq_of_same v _ hhead hties.1, sortItems_eq_of_same l _ htail hties.2]

theorem sortEntries_eq_of_same : ∀ l m : List (Text × Json), SameEntries l m → NoTiesEntries c l →
    sortEntries c l = sortEntries c m
  | [], m, h, _ => by cases h; rfl
  | (k, v) :: l, m, h, hties => by
    cases h with
    | cons hhead htail =>
      rw [sortEntries, sortEntries, sortKeys_eq_of_same v _ hhead hties.1, sortEntries_eq_of_same l _ htail hties.2]

end

/-! ### Ties -/

/-- Two distinct elements stand in one order only. -/
theorem not_both_orders {α : Type} {a b : α} {l : List α} (hl : l.Nodup) (hab : [a, b].Sublist l) (hba : [b, a].Sublist l) :
    False := by
  induction l with
  | nil => cases hab
  | cons x l ih =>
    obtain ⟨hx, hl⟩ := List.nodup_cons.1 hl
    cases hab with
    | cons _ hab =>
      cases hba with
      | cons _ hba => exact ih hl hab hba
      | cons_cons _ hba => exact hx (hab.subset (List.mem_cons_of_mem _ List.mem_cons_self))
    | cons_cons _ hab =>
      cases hba with
      | cons _ hba => exact hx (hba.subset (List.mem_cons_of_mem _ List.mem_cons_self))
      | cons_cons _ hba => exact hx (hab.subset List.mem_cons_self)

/-- Turning the entries round is told apart where two keys collate equal. -/
theorem sortByKey_reverse_ne {l : List (Text × Json)} (hl : (l.map (·.1)).Nodup)
    (hties : ¬l.Pairwise fun e d => c.tied e.1 d.1 = false) : sortByKey c l ≠ sortByKey c l.reverse := by
  have hpair : ∃ e d, [e, d].Sublist l ∧ c.tied e.1 d.1 = true := by
    by_contra hnone
    refine hties (List.pairwise_iff_forall_sublist.2 fun {e d} hsub => ?_)
    by_contra htied
    exact hnone ⟨e, d, hsub, by rwa [Bool.not_eq_false] at htied⟩
  obtain ⟨e, d, hsub, htied⟩ := hpair
  obtain ⟨hed, hde⟩ := Bool.and_eq_true_iff.1 htied
  intro heq
  have : Std.Total fun e d : Text × Json => c.le e.1 d.1 = true := ⟨fun e d => by
    rcases Bool.or_eq_true_iff.1 (c.total e.1 d.1) with h | h
    · exact Or.inl h
    · exact Or.inr h⟩
  have : IsTrans (Text × Json) fun e d => c.le e.1 d.1 = true := ⟨fun e d f => c.trans e.1 d.1 f.1⟩
  have hsorted : [e, d].Sublist (sortByKey c l) := List.pair_sublist_insertionSort hed hsub
  have hreversed : [d, e].Sublist (sortByKey c l.reverse) :=
    List.pair_sublist_insertionSort hde (List.reverse_sublist.2 hsub)
  rw [← heq] at hreversed
  exact not_both_orders ((perm_sortByKey l).nodup_iff.2 (List.Nodup.of_map _ hl)) hsorted hreversed

/-- Entries under distinct keys in one order are equal where they are reordered. -/
theorem eq_of_perm_of_keys {l m : List (Text × Json)} (h : l.Perm m) (hkeys : l.map (·.1) = m.map (·.1))
    (hl : (l.map (·.1)).Nodup) : l = m := by
  induction l generalizing m with
  | nil => exact h.nil_eq
  | cons e l ih =>
    cases m with
    | nil => exact h.eq_nil
    | cons d m =>
      obtain ⟨hkey, hrest⟩ := List.cons.inj hkeys
      obtain ⟨hnew, hl⟩ := List.nodup_cons.1 hl
      obtain rfl : e = d := by
        rcases List.mem_cons.1 (h.mem_iff.1 List.mem_cons_self) with he | he
        · exact he
        · exact absurd (hrest ▸ List.mem_map_of_mem he) hnew
      rw [ih ((List.perm_cons e).1 h) hrest hl]

theorem keys_sortEntries (l : List (Text × Json)) : (sortEntries c l).map (·.1) = l.map (·.1) := by
  rw [sortEntries_eq_map, List.map_map]
  rfl

mutual

/-- **Where two keys of an object collate equal**, some reordering of the value is told apart. -/
theorem exists_reordered : ∀ a : Json, a.Distinct → ¬a.NoTies c →
    ∃ b : Json, b.Distinct ∧ Same a b ∧ sortKeys c a ≠ sortKeys c b
  | null, _, hties => absurd trivial hties
  | bool _, _, hties => absurd trivial hties
  | num _, _, hties => absurd trivial hties
  | str _, _, hties => absurd trivial hties
  | arr l, hdistinct, hties => by
    obtain ⟨m, hm, hsame, hne⟩ := exists_reordered_items l hdistinct hties
    exact ⟨arr m, hm, .arr hsame, fun h => hne (Json.arr.inj h)⟩
  | obj l, hdistinct, hties => by
    by_cases hpairs : l.Pairwise fun e d => c.tied e.1 d.1 = false
    · obtain ⟨m, hm, hkeys, hsame, hne⟩ := exists_reordered_entries l hdistinct.2 fun h => hties ⟨hpairs, h⟩
      refine ⟨obj m, ⟨by rw [hkeys]; exact hdistinct.1, hm⟩, .obj hsame (List.Perm.refl _), fun h => hne ?_⟩
      have hsorted : sortByKey c (sortEntries c l) = sortByKey c (sortEntries c m) := Json.obj.inj h
      have hperm : (sortEntries c l).Perm (sortEntries c m) := by
        have hl := perm_sortByKey (c := c) (sortEntries c l)
        rw [hsorted] at hl
        exact hl.symm.trans (perm_sortByKey _)
      refine eq_of_perm_of_keys hperm (by rw [keys_sortEntries, keys_sortEntries, hkeys]) ?_
      rw [keys_sortEntries]
      exact hdistinct.1
    · have hkeys : ((sortEntries c l).map (·.1)).Nodup := by
        rw [keys_sortEntries]
        exact hdistinct.1
      have htied : ¬(sortEntries c l).Pairwise fun e d => c.tied e.1 d.1 = false := by
        rw [sortEntries_eq_map]
        exact fun h => hpairs (List.pairwise_map.1 h)
      refine ⟨obj l.reverse, ⟨?_, ?_⟩, .obj (SameEntries.refl l) (List.reverse_perm l).symm, fun h => ?_⟩
      · rw [List.map_reverse]
        exact List.nodup_reverse.2 hdistinct.1
      · rw [distinctEntries_iff]
        exact fun e he => distinctEntries_iff.1 hdistinct.2 e (List.mem_reverse.1 he)
      · refine sortByKey_reverse_ne hkeys htied ?_
        have hreverse : sortEntries c l.reverse = (sortEntries c l).reverse := by
          rw [sortEntries_eq_map, sortEntries_eq_map, List.map_reverse]
        rw [← hreverse]
        exact Json.obj.inj h

theorem exists_reordered_items : ∀ l : List Json, DistinctItems l → ¬NoTiesItems c l →
    ∃ m, DistinctItems m ∧ SameItems l m ∧ sortItems c l ≠ sortItems c m
  | [], _, hties => absurd trivial hties
  | v :: l, hdistinct, hties => by
    by_cases hv : v.NoTies c
    · obtain ⟨m, hm, hsame, hne⟩ := exists_reordered_items l hdistinct.2 fun h => hties ⟨hv, h⟩
      exact ⟨v :: m, ⟨hdistinct.1, hm⟩, .cons (Same.refl v) hsame, fun h => hne (List.cons.inj h).2⟩
    · obtain ⟨w, hw, hsame, hne⟩ := exists_reordered v hdistinct.1 hv
      exact ⟨w :: l, ⟨hw, hdistinct.2⟩, .cons hsame (SameItems.refl l), fun h => hne (List.cons.inj h).1⟩

theorem exists_reordered_entries : ∀ l : List (Text × Json), DistinctEntries l → ¬NoTiesEntries c l →
    ∃ m, DistinctEntries m ∧ m.map (·.1) = l.map (·.1) ∧ SameEntries l m ∧ sortEntries c l ≠ sortEntries c m
  | [], _, hties => absurd trivial hties
  | (key, v) :: l, hdistinct, hties => by
    by_cases hv : v.NoTies c
    · obtain ⟨m, hm, hkeys, hsame, hne⟩ := exists_reordered_entries l hdistinct.2 fun h => hties ⟨hv, h⟩
      refine ⟨(key, v) :: m, ⟨hdistinct.1, hm⟩, ?_, .cons (Same.refl v) hsame, fun h => hne (List.cons.inj h).2⟩
      rw [List.map_cons, List.map_cons, hkeys]
    · obtain ⟨w, hw, hsame, hne⟩ := exists_reordered v hdistinct.1 hv
      refine ⟨(key, w) :: l, ⟨hw, hdistinct.2⟩, rfl, .cons hsame (SameEntries.refl l), fun h => hne ?_⟩
      exact (Prod.mk.inj (List.cons.inj h).1).2

end

/-- **Sorting by a collation tells a value from all others that are not the same**, and from no others, exactly
when no two keys of an object in it collate equal. -/
theorem sortKeys_exact_iff {a : Json} (ha : a.Distinct) :
    (∀ b : Json, b.Distinct → (sortKeys c a = sortKeys c b ↔ Same a b)) ↔ a.NoTies c := by
  constructor
  · intro h
    by_contra hties
    obtain ⟨b, hb, hsame, hne⟩ := exists_reordered a ha hties
    exact hne ((h b hb).2 hsame)
  · exact fun hties b _ => ⟨same_of_sortKeys_eq a b, fun h => sortKeys_eq_of_same a b h hties⟩

end Json

end Zenod
