/-
The values that JSON is read as and written from. Reading makes doubles of the
numerals, drops all but the last entry of a key and puts keys that are array
indices first; writing has no numeral for a number that is not finite, and
writes `null`.

`read_lay`: a value is read back as what was written. `written_eq_iff`: that is
the value itself exactly when its numbers are finite.
-/
import Zenod.Lib.Double

namespace Zenod

namespace JsonNumber

/-- What stands for `NaN`, which has no numeral. -/
def nan : JsonNumber := ⟨['e'], by decide, by decide⟩

def isFinite (n : JsonNumber) : Bool := isNumberText n.text && (Double.nearest n.value).isSome

/-- A number of JavaScript: the numeral of a double, or what stands for a number that has none. -/
def IsNumber (n : JsonNumber) : Prop := n.toNumber = n ∨ n = nan

theorem isNumber_toNumber (n : JsonNumber) : n.toNumber.IsNumber := Or.inl n.toNumber_idem

theorem toNumber_of_finite {n : JsonNumber} (h : n.IsNumber) (hfinite : n.isFinite = true) : n.toNumber = n := by
  rcases h with h | rfl
  · exact h
  · exact absurd hfinite (by decide)

end JsonNumber

namespace Json

/-! ## The order of keys -/

/-- A key that is an array index comes before the others, at its value. -/
def rank (key : Text) : Nat :=
  if isDigits key && (key.length = 1 || key.head? ≠ some '0') then min (natOf key) 4294967295 else 4294967295

theorem rank_le (key : Text) : rank key ≤ 4294967295 := by
  unfold rank
  split
  next => exact Nat.min_le_right _ _
  next => exact Nat.le_refl _

/-- `object[key] = v`, for an object without order. -/
def assign (entries : List (Text × Json)) (e : Text × Json) : List (Text × Json) :=
  if entries.any (·.1 = e.1) then entries.map fun d => if d.1 = e.1 then e else d else entries ++ [e]

def orderKeys (entries : List (Text × Json)) : List (Text × Json) :=
  entries.insertionSort fun e d => rank e.1 ≤ rank d.1

/-- The object that is made of entries in this order. -/
def ofAssignments (entries : List (Text × Json)) : List (Text × Json) := orderKeys (entries.foldl assign [])

/-- The keys of an object, each once and in their order. -/
def KeysOrdered (keys : List Text) : Prop := keys.Nodup ∧ (keys.map rank).Pairwise (· ≤ ·)

theorem keys_assign (entries : List (Text × Json)) (e : Text × Json) :
    (assign entries e).map (·.1) = if e.1 ∈ entries.map (·.1) then entries.map (·.1) else entries.map (·.1) ++ [e.1] := by
  have hany : entries.any (·.1 = e.1) = true ↔ e.1 ∈ entries.map (·.1) := by
    simp only [List.any_eq_true, decide_eq_true_eq, List.mem_map]
  unfold assign
  by_cases h : e.1 ∈ entries.map (·.1)
  · rw [if_pos (hany.2 h), if_pos h, List.map_map]
    refine List.map_congr_left fun d _ => ?_
    simp only [Function.comp_apply]
    split
    next hd => exact hd.symm
    next => rfl
  · rw [if_neg fun hmem => h (hany.1 hmem), if_neg h, List.map_append, List.map_singleton]

theorem nodup_assign {entries : List (Text × Json)} (h : (entries.map (·.1)).Nodup) (e : Text × Json) :
    ((assign entries e).map (·.1)).Nodup := by
  rw [keys_assign]
  split
  next => exact h
  next hnew =>
    refine List.nodup_append.2 ⟨h, List.nodup_singleton _, fun a ha b hb hab => ?_⟩
    rw [List.mem_singleton.1 hb] at hab
    exact hnew (hab ▸ ha)

theorem assign_new {entries : List (Text × Json)} {e : Text × Json} (h : e.1 ∉ entries.map (·.1)) :
    assign entries e = entries ++ [e] := by
  refine if_neg fun hany => h ?_
  obtain ⟨d, hd, heq⟩ := List.any_eq_true.1 hany
  exact List.mem_map.2 ⟨d, hd, of_decide_eq_true heq⟩

theorem nodup_foldl_assign (entries : List (Text × Json)) {object : List (Text × Json)} (h : (object.map (·.1)).Nodup) :
    ((entries.foldl assign object).map (·.1)).Nodup := by
  induction entries generalizing object with
  | nil => exact h
  | cons e entries ih => exact ih (nodup_assign h e)

theorem foldl_assign_new {entries object : List (Text × Json)} (h : ((object ++ entries).map (·.1)).Nodup) :
    entries.foldl assign object = object ++ entries := by
  induction entries generalizing object with
  | nil => exact (List.append_nil object).symm
  | cons e entries ih =>
    have hsplit : object ++ e :: entries = object ++ [e] ++ entries := by rw [List.append_assoc]; rfl
    have hnew : e.1 ∉ object.map (·.1) := by
      intro hmem
      rw [List.map_append, List.nodup_append] at h
      exact h.2.2 _ hmem _ List.mem_cons_self rfl
    rw [hsplit] at h
    rw [List.foldl_cons, assign_new hnew, ih h, hsplit]

instance : Std.Total fun e d : Text × Json => rank e.1 ≤ rank d.1 := ⟨fun _ _ => Nat.le_total _ _⟩

instance : IsTrans (Text × Json) fun e d => rank e.1 ≤ rank d.1 := ⟨fun _ _ _ => Nat.le_trans⟩

theorem keysOrdered_ofAssignments (entries : List (Text × Json)) : KeysOrdered ((ofAssignments entries).map (·.1)) := by
  unfold ofAssignments orderKeys
  constructor
  · have hperm := (List.perm_insertionSort (fun e d : Text × Json => rank e.1 ≤ rank d.1) (entries.foldl assign [])).map (·.1)
    exact hperm.nodup_iff.2 (nodup_foldl_assign entries List.nodup_nil)
  · rw [List.map_map, List.pairwise_map]
    exact List.pairwise_insertionSort _ _

/-- An object in order is made as it is. -/
theorem ofAssignments_eq {entries : List (Text × Json)} (h : KeysOrdered (entries.map (·.1))) :
    ofAssignments entries = entries := by
  unfold ofAssignments orderKeys
  rw [@foldl_assign_new entries [] h.1]
  obtain ⟨_, hsorted⟩ := h
  rw [List.map_map, List.pairwise_map] at hsorted
  exact List.Pairwise.insertionSort_eq hsorted

/-! ## Reading and writing -/

mutual

/-- What `JSON.parse` makes of a text's numerals and entries. -/
def ofText : Json → Json
  | null => null
  | bool b => bool b
  | num n => num n.toNumber
  | str t => str t
  | arr items => arr (ofItems items)
  | obj entries => obj (ofAssignments (ofEntries entries))

def ofItems : List Json → List Json
  | [] => []
  | v :: rest => ofText v :: ofItems rest

def ofEntries : List (Text × Json) → List (Text × Json)
  | [] => []
  | (key, v) :: rest => (key, ofText v) :: ofEntries rest

end

mutual

/-- What `JSON.stringify` writes. -/
def written : Json → Json
  | null => null
  | bool b => bool b
  | num n => if n.isFinite then num n else null
  | str t => str t
  | arr items => arr (writtenItems items)
  | obj entries => obj (writtenEntries entries)

def writtenItems : List Json → List Json
  | [] => []
  | v :: rest => written v :: writtenItems rest

def writtenEntries : List (Text × Json) → List (Text × Json)
  | [] => []
  | (key, v) :: rest => (key, written v) :: writtenEntries rest

end

/-- `JSON.parse`. -/
def read (t : Text) : Option Json := (parse t).map ofText

/-- `JSON.stringify(v)`. -/
def stringify (v : Json) : Text := (written v).print

/-- `JSON.stringify(v, null, 2)`. -/
def stringifyIndented (v : Json) : Text := lay .indented 0 (written v)

mutual

/-- A value of JavaScript. -/
def IsValue : Json → Prop
  | num n => n.IsNumber
  | arr items => AreValues items
  | obj entries => KeysOrdered (entries.map (·.1)) ∧ HaveValues entries
  | _ => True

def AreValues : List Json → Prop
  | [] => True
  | v :: rest => IsValue v ∧ AreValues rest

def HaveValues : List (Text × Json) → Prop
  | [] => True
  | (_, v) :: rest => IsValue v ∧ HaveValues rest

end

mutual

/-- Its numbers are finite. -/
def Finite : Json → Prop
  | num n => n.isFinite = true
  | arr items => AreFinite items
  | obj entries => HaveFinite entries
  | _ => True

def AreFinite : List Json → Prop
  | [] => True
  | v :: rest => Finite v ∧ AreFinite rest

def HaveFinite : List (Text × Json) → Prop
  | [] => True
  | (_, v) :: rest => Finite v ∧ HaveFinite rest

end

/-! ## What is written is read back -/

theorem writtenEntries_keys (entries : List (Text × Json)) : (writtenEntries entries).map (·.1) = entries.map (·.1) := by
  induction entries with
  | nil => rfl
  | cons e rest ih =>
    obtain ⟨key, v⟩ := e
    rw [writtenEntries, List.map_cons, List.map_cons, ih]

theorem haveValues_iff {entries : List (Text × Json)} : HaveValues entries ↔ ∀ e ∈ entries, e.2.IsValue := by
  induction entries with
  | nil => simp [HaveValues]
  | cons e rest ih =>
    obtain ⟨key, v⟩ := e
    rw [HaveValues, ih, List.forall_mem_cons]

theorem mem_assign {entries : List (Text × Json)} {e d : Text × Json} (h : d ∈ assign entries e) : d = e ∨ d ∈ entries := by
  unfold assign at h
  split at h
  next =>
    obtain ⟨c, hc, rfl⟩ := List.mem_map.1 h
    split
    next => exact Or.inl rfl
    next => exact Or.inr hc
  next =>
    rcases List.mem_append.1 h with h | h
    · exact Or.inr h
    · exact Or.inl (List.mem_singleton.1 h)

theorem mem_foldl_assign {entries object : List (Text × Json)} {d : Text × Json} (h : d ∈ entries.foldl assign object) :
    d ∈ object ∨ d ∈ entries := by
  induction entries generalizing object with
  | nil => exact Or.inl h
  | cons e rest ih =>
    rcases ih h with h | h
    · rcases mem_assign h with rfl | h
      · exact Or.inr List.mem_cons_self
      · exact Or.inl h
    · exact Or.inr (List.mem_cons_of_mem e h)

theorem haveValues_ofAssignments {entries : List (Text × Json)} (h : HaveValues entries) :
    HaveValues (ofAssignments entries) := by
  rw [haveValues_iff] at h ⊢
  intro d hd
  rcases mem_foldl_assign ((List.mem_insertionSort _).1 hd) with hd | hd
  · cases hd
  · exact h d hd

mutual

/-- **What is read is a value.** -/
theorem isValue_ofText : ∀ v : Json, (ofText v).IsValue
  | null => trivial
  | bool _ => trivial
  | num n => n.isNumber_toNumber
  | str _ => trivial
  | arr items => areValues_ofItems items
  | obj entries => ⟨keysOrdered_ofAssignments _, haveValues_ofAssignments (haveValues_ofEntries entries)⟩

theorem areValues_ofItems : ∀ items : List Json, AreValues (ofItems items)
  | [] => trivial
  | v :: rest => ⟨isValue_ofText v, areValues_ofItems rest⟩

theorem haveValues_ofEntries : ∀ entries : List (Text × Json), HaveValues (ofEntries entries)
  | [] => trivial
  | (_, v) :: rest => ⟨isValue_ofText v, haveValues_ofEntries rest⟩

end

mutual

theorem grammatical_written : ∀ v : Json, (written v).Grammatical
  | null => trivial
  | bool _ => trivial
  | num n => by
    unfold written
    split
    next h =>
      unfold JsonNumber.isFinite at h
      rw [Bool.and_eq_true] at h
      exact h.1
    next => trivial
  | str _ => trivial
  | arr items => grammatical_writtenItems items
  | obj entries => grammatical_writtenEntries entries

theorem grammatical_writtenItems : ∀ items : List Json, GrammaticalItems (writtenItems items)
  | [] => trivial
  | v :: rest => ⟨grammatical_written v, grammatical_writtenItems rest⟩

theorem grammatical_writtenEntries : ∀ entries : List (Text × Json), GrammaticalEntries (writtenEntries entries)
  | [] => trivial
  | (_, v) :: rest => ⟨grammatical_written v, grammatical_writtenEntries rest⟩

end

mutual

theorem ofText_written : ∀ {v : Json}, v.IsValue → ofText (written v) = written v
  | null, _ => rfl
  | bool _, _ => rfl
  | num n, h => by
    unfold written
    split
    next hfinite => rw [ofText, JsonNumber.toNumber_of_finite h hfinite]
    next => rfl
  | str _, _ => rfl
  | arr items, h => by rw [written, ofText, ofItems_written h]
  | obj entries, h => by
    rw [written, ofText, ofEntries_written h.2, ofAssignments_eq]
    rw [writtenEntries_keys]
    exact h.1

theorem ofItems_written : ∀ {items : List Json}, AreValues items → ofItems (writtenItems items) = writtenItems items
  | [], _ => rfl
  | v :: rest, h => by rw [writtenItems, ofItems, ofText_written h.1, ofItems_written h.2]

theorem ofEntries_written : ∀ {entries : List (Text × Json)}, HaveValues entries →
    ofEntries (writtenEntries entries) = writtenEntries entries
  | [], _ => rfl
  | (key, v) :: rest, h => by rw [writtenEntries, ofEntries, ofText_written h.1, ofEntries_written h.2]

end

/-- **A value is read back as what was written**, however it is laid out. -/
theorem read_lay (l : Layout) {v : Json} (h : v.IsValue) (d : Nat) : read (lay l d (written v)) = some (written v) := by
  unfold read
  rw [parse_lay l (grammatical_written v), Option.map_some, ofText_written h]

theorem read_stringifyIndented {v : Json} (h : v.IsValue) : read (stringifyIndented v) = some (written v) :=
  read_lay .indented h 0

/-- What is read is a value. -/
theorem isValue_of_read {t : Text} {v : Json} (h : read t = some v) : v.IsValue := by
  obtain ⟨w, _, rfl⟩ := Option.map_eq_some_iff.1 h
  exact isValue_ofText w

mutual

/-- **A value is written as it is** exactly when its numbers are finite. -/
theorem written_eq_iff : ∀ v : Json, written v = v ↔ v.Finite
  | null => iff_of_true rfl trivial
  | bool _ => iff_of_true rfl trivial
  | num n => by
    unfold written Finite
    constructor
    · intro h
      by_contra hinfinite
      rw [if_neg hinfinite] at h
      cases h
    · exact fun h => if_pos h
  | str _ => iff_of_true rfl trivial
  | arr items => by rw [written, Finite, Json.arr.injEq, writtenItems_eq_iff items]
  | obj entries => by rw [written, Finite, Json.obj.injEq, writtenEntries_eq_iff entries]

theorem writtenItems_eq_iff : ∀ items : List Json, writtenItems items = items ↔ AreFinite items
  | [] => iff_of_true rfl trivial
  | v :: rest => by rw [writtenItems, AreFinite, List.cons.injEq, written_eq_iff v, writtenItems_eq_iff rest]

theorem writtenEntries_eq_iff : ∀ entries : List (Text × Json), writtenEntries entries = entries ↔ HaveFinite entries
  | [] => iff_of_true rfl trivial
  | (key, v) :: rest => by
    rw [writtenEntries, HaveFinite, List.cons.injEq, Prod.mk.injEq, written_eq_iff v, writtenEntries_eq_iff rest]
    simp only [true_and]

end

/-- The text of a value tells what was written. -/
theorem stringify_inj {v w : Json} (h : stringify v = stringify w) : written v = written w := print_injective h

end Json

end Zenod
