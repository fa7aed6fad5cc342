/-
Text as a list of characters, and the operations of JavaScript on it that a
line-oriented file format needs: splitting into lines and joining them again,
`startsWith`, `trimEnd`, `lastIndexOf` of a two-character mark, `slice` by
UTF-16 code units.

`lines_terminated`: lines without a newline of their own, each ended by one,
split back into the same lines. `lines_append`: what is written behind a
newline leaves the lines before it as they are.
-/
import Mathlib.Data.List.DropRight
import Mathlib.Data.List.Infix
import Mathlib.Data.List.Sort
import Zenod.Lib.Js

namespace Zenod

abbrev Text := List Char

instance : LawfulBEq Text := inferInstance

/-- The characters that are letters. -/
theorem toNat_of_isAlpha {c : Char} (h : c.isAlpha = true) :
    (65 ≤ c.toNat ∧ c.toNat ≤ 90) ∨ (97 ≤ c.toNat ∧ c.toNat ≤ 122) := by
  rcases Bool.or_eq_true_iff.1 h with hupper | hlower
  · exact Or.inl (of_decide_eq_true hupper)
  · have hboth := Bool.and_eq_true_iff.1 hlower
    exact Or.inr ⟨of_decide_eq_true hboth.1, of_decide_eq_true hboth.2⟩

namespace Text

/-- `text.split("\n")`. -/
def lines (t : Text) : List Text := t.splitOn '\n'

/-- `lines.join("\n")`. -/
def join (ls : List Text) : Text := ['\n'].intercalate ls

/-- Each line ended by a newline. -/
def terminated (ls : List Text) : Text := ls.flatMap (· ++ ['\n'])

def SingleLine (t : Text) : Prop := '\n' ∉ t

instance (t : Text) : Decidable (SingleLine t) := inferInstanceAs (Decidable ('\n' ∉ t))

/-- `t.startsWith(p)`. -/
def startsWith (t p : Text) : Bool := p.isPrefixOf t

/-- `t.endsWith("\n")`. -/
def endsWithNewline (t : Text) : Bool := t.getLast? == some '\n'

def trim (t : Text) : Text := Js.trimChars t

def trimEnd (t : Text) : Text := t.rdropWhile Js.isSpace

/-- `t.split(/\s+/).filter(Boolean)`. -/
def words (t : Text) : List Text := (t.splitOnP Js.isSpace).filter (· ≠ [])

/-- `t.length`: a scalar value outside the BMP takes two code units. -/
def utf16Length (t : Text) : Nat := (t.map fun c => if c.toNat < 0x10000 then 1 else 2).sum

/-- `t.slice(0, n)` once it is written as UTF-8: half a surrogate pair becomes U+FFFD. -/
def takeUnits : Nat → Text → Text
  | 0, _ => []
  | _, [] => []
  | n + 1, c :: t =>
    if c.toNat < 0x10000 then c :: takeUnits n t
    else match n with
      | 0 => [Char.ofNat 0xfffd]
      | n + 1 => c :: takeUnits n t

/-- The code units of a character. -/
def units (c : Char) : Nat := if c.toNat < 0x10000 then 1 else 2

/-- `t.slice(n)`; half a surrogate pair becomes U+FFFD. -/
def dropUnits : Nat → Text → Text
  | 0, t => t
  | _, [] => []
  | n + 1, c :: t =>
    if c.toNat < 0x10000 then dropUnits n t
    else match n with
      | 0 => Char.ofNat 0xfffd :: t
      | n + 1 => dropUnits n t

/-- The texts before and behind an offset, none inside a surrogate pair. -/
def splitUnits : Nat → Text → Option (Text × Text)
  | 0, t => some ([], t)
  | _, [] => some ([], [])
  | n + 1, c :: t =>
    if c.toNat < 0x10000 then (splitUnits n t).map fun r => (c :: r.1, r.2)
    else match n with
      | 0 => none
      | n + 1 => (splitUnits n t).map fun r => (c :: r.1, r.2)

/-- `t.slice(start, stop) === part`. -/
def isSlice (t : Text) (start stop : Nat) (part : Text) : Bool :=
  (splitUnits start t).any fun r => (splitUnits (stop - start) r.2).any (·.1 = part)

/-- `t[i] === c`, for a character of one code unit. -/
def hasUnit (t : Text) (i : Nat) (c : Char) : Bool := (splitUnits i t).any (·.2.head? = some c)

/-- What stands before and behind the last "xy": `lastIndexOf` and the two slices. -/
def splitLast (x y : Char) : Text → Option (Text × Text)
  | [] => none
  | c :: t =>
    match splitLast x y t with
    | some (before, behind) => some (c :: before, behind)
    | none => if c = x ∧ t.head? = some y then some ([], t.tail) else none

/-- The place of a character in the order of UTF-16 code units: surrogates come before U+E000. -/
def unitOrder (c : Char) : Nat :=
  if 0xe000 ≤ c.toNat ∧ c.toNat < 0x10000 then c.toNat + 0x110000 else c.toNat

/-- The order of `Array.prototype.sort` on strings. -/
def le : Text → Text → Bool
  | [], _ => true
  | _ :: _, [] => false
  | c :: s, d :: t => unitOrder c < unitOrder d || (c == d && le s t)

def sort (ts : List Text) : List Text := ts.insertionSort fun s t => le s t = true

/-- What stands before and behind the first `mark`: `indexOf` and the two slices. -/
def cut (mark : Text) : Text → Option (Text × Text)
  | [] => if mark = [] then some ([], []) else none
  | c :: t =>
    if startsWith (c :: t) mark then some ([], (c :: t).drop mark.length)
    else (cut mark t).map fun r => (c :: r.1, r.2)

/-- `t.includes(part)`. -/
def includes (t part : Text) : Bool := (cut part t).isSome

/-- What stands behind the last occurrence: `t.slice(t.lastIndexOf(mark) + mark.length)`. -/
def behindLast (mark : Text) : Text → Option Text
  | [] => if mark = [] then some [] else none
  | c :: t => (behindLast mark t).or (if startsWith (c :: t) mark then some ((c :: t).drop mark.length) else none)

def piecesFrom (mark : Text) : Nat → Text → List Text
  | _, [] => [[]]
  | skip + 1, _ :: t => piecesFrom mark skip t
  | 0, c :: t =>
    if startsWith (c :: t) mark then [] :: piecesFrom mark (mark.length - 1) t
    else (piecesFrom mark 0 t).modifyHead (c :: ·)

/-- `t.split(mark)`, for a mark that is not empty. -/
def pieces (mark t : Text) : List Text := piecesFrom mark 0 t

/-- `t.replace(/suffix$/, "")`. -/
def withoutSuffix (suffix t : Text) : Text := if suffix.isSuffixOf t then t.rdrop suffix.length else t

/-- What `.` of a regular expression does not match. -/
def isLineTerminator (c : Char) : Bool :=
  c.toNat == 0x0a || c.toNat == 0x0d || c.toNat == 0x2028 || c.toNat == 0x2029

/-- A property of the characters of a text, as a computation. -/
theorem forall_of_all {P : Char → Prop} [DecidablePred P] {t : Text} (h : (t.all fun c => decide (P c)) = true) :
    ∀ c ∈ t, P c := by
  intro c hc
  exact of_decide_eq_true (List.all_eq_true.1 h c hc)

/-! ## Lines -/

theorem lines_ne_nil (t : Text) : lines t ≠ [] := List.splitOn_ne_nil _ _

theorem lines_of_singleLine {t : Text} (h : SingleLine t) : lines t = [t] := List.splitOn_eq_singleton h

/-- **Behind a newline the lines start over**, and those before it stay. -/
theorem lines_append (s t : Text) : lines (s ++ '\n' :: t) = lines s ++ lines t :=
  List.splitOn_append_cons_self s t

theorem join_lines (t : Text) : join (lines t) = t := List.intercalate_splitOn '\n'

theorem singleLine_of_mem_lines {t l : Text} (h : l ∈ lines t) : SingleLine l := by
  induction t generalizing l with
  | nil =>
    have hl : l = [] := by simpa [lines] using h
    subst hl
    exact List.not_mem_nil
  | cons c t ih =>
    simp only [lines, List.splitOn_cons_eq_if_modifyHead] at h
    split at h
    · rcases List.mem_cons.1 h with rfl | h
      · exact List.not_mem_nil
      · exact ih h
    next hc =>
      cases ht : t.splitOn '\n' with
      | nil => exact absurd ht (List.splitOn_ne_nil _ _)
      | cons m ms =>
        rw [ht, List.modifyHead_cons] at h
        rcases List.mem_cons.1 h with rfl | h
        · have hm : SingleLine m := ih (by simp [lines, ht])
          have hc' : c ≠ '\n' := by simpa using hc
          simp only [SingleLine, List.mem_cons, not_or]
          exact ⟨Ne.symm hc', hm⟩
        · exact ih (by simp [lines, ht, h])

@[simp] theorem terminated_nil : terminated [] = [] := rfl

@[simp] theorem terminated_cons (l : Text) (ls : List Text) :
    terminated (l :: ls) = l ++ '\n' :: terminated ls := by
  simp [terminated]

@[simp] theorem terminated_append (ls ms : List Text) :
    terminated (ls ++ ms) = terminated ls ++ terminated ms := by
  simp [terminated]

/-- **Terminated lines split back**, with the empty line behind the last newline. -/
theorem lines_terminated {ls : List Text} (h : ∀ l ∈ ls, SingleLine l) : lines (terminated ls) = ls ++ [[]] := by
  induction ls with
  | nil => rfl
  | cons l ls ih =>
    have hl : SingleLine l := h l List.mem_cons_self
    rw [terminated_cons, lines_append, lines_of_singleLine hl, ih fun m hm => h m (List.mem_cons_of_mem _ hm)]
    rfl

theorem join_cons_cons (l m : Text) (ls : List Text) : join (l :: m :: ls) = l ++ '\n' :: join (m :: ls) := by
  simp [join]

/-- Joined lines, ended by a newline, are terminated lines. -/
theorem join_append_newline {ls : List Text} (h : ls ≠ []) : join ls ++ ['\n'] = terminated ls := by
  induction ls with
  | nil => exact absurd rfl h
  | cons l ls ih =>
    cases ls with
    | nil => simp [join]
    | cons m ls => rw [join_cons_cons, terminated_cons, ← ih (List.cons_ne_nil m ls)]; simp

theorem terminated_lines (t : Text) : terminated (lines t) = t ++ ['\n'] := by
  rw [← join_append_newline (lines_ne_nil t), join_lines]

theorem join_append {ls ms : List Text} (hl : ls ≠ []) (hm : ms ≠ []) :
    join (ls ++ ms) = join ls ++ '\n' :: join ms := by
  induction ls with
  | nil => exact absurd rfl hl
  | cons l ls ih =>
    cases ls with
    | nil =>
      cases ms with
      | nil => exact absurd rfl hm
      | cons m ms => simp [join]
    | cons l' ls =>
      have hrest := ih (List.cons_ne_nil l' ls)
      rw [List.cons_append, List.cons_append, join_cons_cons, ← List.cons_append, hrest, join_cons_cons]
      simp

/-- A text is terminated lines, up to the newline its last line may lack. -/
theorem exists_closed (t : Text) : ∃ ls : List Text, ls ≠ [] ∧ (∀ l ∈ ls, SingleLine l) ∧
    (if endsWithNewline t then t else t ++ ['\n']) = terminated ls ∧ (lines t = ls ∨ lines t = ls ++ [[]]) := by
  by_cases h : endsWithNewline t = true
  · have hlast : t.getLast? = some '\n' := by simpa [endsWithNewline] using h
    obtain ⟨s, rfl⟩ := List.getLast?_eq_some_iff.1 hlast
    refine ⟨lines s, lines_ne_nil s, fun l hl => singleLine_of_mem_lines hl, ?_, Or.inr ?_⟩
    · rw [if_pos h, terminated_lines]
    · rw [lines_append]
      rfl
  · refine ⟨lines t, lines_ne_nil t, fun l hl => singleLine_of_mem_lines hl, ?_, Or.inl rfl⟩
    rw [if_neg h, terminated_lines]

/-! ## Trimming -/

/-- Neither end is white space. -/
def Tight (t : Text) : Prop :=
  (∀ c ∈ t.head?, Js.isSpace c = false) ∧ ∀ c ∈ t.getLast?, Js.isSpace c = false

theorem trim_eq (t : Text) : trim t = (t.dropWhile Js.isSpace).rdropWhile Js.isSpace := rfl

theorem Tight.trim_eq {t : Text} (h : Tight t) : trim t = t := by
  have hhead : t.dropWhile Js.isSpace = t := by
    cases t with
    | nil => rfl
    | cons c t => simp [h.1 c rfl]
  have hlast : t.rdropWhile Js.isSpace = t := by
    rw [List.rdropWhile_eq_self_iff]
    intro hne
    simp [h.2 (t.getLast hne) (List.getLast?_eq_some_getLast hne)]
  rw [Text.trim_eq, hhead, hlast]

/-- What `trim` leaves is tight: a text it does not change has no space at either end. -/
theorem tight_trim (t : Text) : Tight (trim t) := by
  generalize hu : trim t = u
  have hself : trim u = u := by
    rw [← hu]
    exact Js.trimChars_idem t
  rw [trim_eq] at hself
  have hlen : u.length ≤ (u.dropWhile Js.isSpace).length := by
    have hpre := List.rdropWhile_prefix Js.isSpace (u.dropWhile Js.isSpace)
    rw [hself] at hpre
    exact hpre.length_le
  have hhead : u.dropWhile Js.isSpace = u :=
    (List.dropWhile_suffix Js.isSpace).eq_of_length_le hlen
  have hlast : u.rdropWhile Js.isSpace = u := by
    rwa [hhead] at hself
  constructor
  · intro c hc
    cases u with
    | nil => cases hc
    | cons d u =>
      obtain rfl : d = c := by simpa using hc
      rw [List.dropWhile_eq_self_iff] at hhead
      have hd := hhead (by simp)
      rw [List.getElem_cons_zero] at hd
      simpa using hd
  · intro c hc
    rw [List.rdropWhile_eq_self_iff] at hlast
    obtain ⟨hne, hc⟩ := List.mem_getLast?_eq_getLast hc
    simpa [hc] using hlast hne

theorem tight_of_forall {t : Text} (h : ∀ c ∈ t, Js.isSpace c = false) : Tight t :=
  ⟨fun c hc => h c (List.mem_of_mem_head? hc), fun c hc => h c (List.mem_of_getLast? hc)⟩

theorem Tight.append {s t : Text} (hs : Tight s) (ht : Tight t) (hs' : s ≠ []) (ht' : t ≠ []) (m : Text) :
    Tight (s ++ m ++ t) := by
  constructor
  · intro c hc
    rw [List.append_assoc, List.head?_append_of_ne_nil _ hs'] at hc
    exact hs.1 c hc
  · intro c hc
    rw [List.getLast?_append_of_ne_nil _ ht'] at hc
    exact ht.2 c hc

/-- One space behind a tight text is all that trimming takes away. -/
theorem Tight.trim_append_space {t : Text} (h : Tight t) (hne : t ≠ []) : trim (t ++ [' ']) = t := by
  have hhead : (t ++ [' ']).dropWhile Js.isSpace = t ++ [' '] := by
    cases t with
    | nil => exact absurd rfl hne
    | cons c t => simp [h.1 c rfl]
  have hlast : t.rdropWhile Js.isSpace = t := by
    rw [List.rdropWhile_eq_self_iff]
    intro hne
    simp [h.2 (t.getLast hne) (List.getLast?_eq_some_getLast hne)]
  rw [Text.trim_eq, hhead, List.rdropWhile_concat_pos Js.isSpace t ' ' (by decide), hlast]

/-- Tight texts, joined by single spaces. -/
theorem intercalate_ne_nil {t : Text} {ts : List Text} (h : t ≠ []) : [' '].intercalate (t :: ts) ≠ [] := by
  cases ts with
  | nil => simpa using h
  | cons u ts => simp

theorem tight_intercalate {ts : List Text} (h : ∀ t ∈ ts, Tight t ∧ t ≠ []) : Tight ([' '].intercalate ts) := by
  induction ts with
  | nil => exact tight_of_forall (by simp)
  | cons t ts ih =>
    have ht := h t List.mem_cons_self
    have hts := ih fun u hu => h u (List.mem_cons_of_mem _ hu)
    cases ts with
    | nil => simpa using ht.1
    | cons u us =>
      have hu := h u (List.mem_cons_of_mem _ List.mem_cons_self)
      have := ht.1.append hts ht.2 (intercalate_ne_nil hu.2) [' ']
      simpa using this

theorem mem_intercalate {sep : Text} {ts : List Text} {c : Char} (h : c ∈ sep.intercalate ts) :
    c ∈ sep ∨ ∃ t ∈ ts, c ∈ t := by
  induction ts with
  | nil => simp at h
  | cons t ts ih =>
    cases ts with
    | nil => exact Or.inr ⟨t, List.mem_cons_self, by simpa using h⟩
    | cons u us =>
      rw [List.intercalate_cons_cons, List.mem_append, List.mem_append] at h
      rcases h with (h | h) | h
      · exact Or.inr ⟨t, List.mem_cons_self, h⟩
      · exact Or.inl h
      · exact (ih h).imp_right fun ⟨w, hw, hc⟩ => ⟨w, List.mem_cons_of_mem _ hw, hc⟩

theorem not_space_of_mem_splitOnP {t w : Text} (h : w ∈ t.splitOnP Js.isSpace) :
    ∀ c ∈ w, Js.isSpace c = false ∧ c ∈ t := by
  induction t generalizing w with
  | nil =>
    obtain rfl : w = [] := by simpa using h
    intro c hc
    cases hc
  | cons d t ih =>
    intro c hc
    rw [List.splitOnP_cons_eq_if_modifyHead] at h
    split at h
    · rcases List.mem_cons.1 h with rfl | h
      · cases hc
      · have := ih h c hc
        exact ⟨this.1, List.mem_cons_of_mem _ this.2⟩
    next hd =>
      cases ht : t.splitOnP Js.isSpace with
      | nil => exact absurd ht (List.splitOnP_ne_nil _ _)
      | cons m ms =>
        rw [ht] at h ih
        rw [List.modifyHead_cons] at h
        rcases List.mem_cons.1 h with rfl | h
        · rcases List.mem_cons.1 hc with rfl | hc
          · exact ⟨by simpa using hd, List.mem_cons_self⟩
          · have := ih List.mem_cons_self c hc
            exact ⟨this.1, List.mem_cons_of_mem _ this.2⟩
        · have := ih (List.mem_cons_of_mem _ h) c hc
          exact ⟨this.1, List.mem_cons_of_mem _ this.2⟩

theorem not_space_of_mem_words {t w : Text} (h : w ∈ words t) :
    w ≠ [] ∧ ∀ c ∈ w, Js.isSpace c = false ∧ c ∈ t := by
  simp only [words, List.mem_filter, decide_eq_true_eq] at h
  exact ⟨h.2, not_space_of_mem_splitOnP h.1⟩

theorem trim_subset {t : Text} {c : Char} (h : c ∈ trim t) : c ∈ t :=
  (List.dropWhile_suffix Js.isSpace).subset ((List.rdropWhile_prefix Js.isSpace _).subset h)

theorem trimEnd_idem (t : Text) : trimEnd (trimEnd t) = trimEnd t := List.rdropWhile_idempotent _ _

/-! ## The last mark -/

theorem splitLast_of_not_mem {x y : Char} {t : Text} (h : x ∉ t) : splitLast x y t = none := by
  induction t with
  | nil => rfl
  | cons c t ih =>
    simp only [List.mem_cons, not_or] at h
    simp [splitLast, ih h.2, Ne.symm h.1]

/-- The mark is found behind whatever stands before it. -/
theorem splitLast_append {x y : Char} {t : Text} (s : Text) (h : x ∉ y :: t) :
    splitLast x y (s ++ x :: y :: t) = some (s, t) := by
  induction s with
  | nil =>
    simp only [List.mem_cons, not_or] at h
    simp [splitLast, splitLast_of_not_mem h.2, Ne.symm h.1]
  | cons c s ih => simp [splitLast, ih]

/-! ## The first mark -/

theorem startsWith_iff {t p : Text} : startsWith t p = true ↔ p <+: t := List.isPrefixOf_iff_prefix

theorem cut_eq_some {mark t : Text} {r : Text × Text} (h : cut mark t = some r) : t = r.1 ++ mark ++ r.2 := by
  induction t generalizing r with
  | nil =>
    unfold cut at h
    split at h
    next hnil =>
      cases h
      rw [hnil]
      rfl
    next => cases h
  | cons c t ih =>
    unfold cut at h
    split at h
    next hstarts =>
      cases h
      exact (List.prefix_iff_eq_append.1 (startsWith_iff.1 hstarts)).symm
    next =>
      obtain ⟨q, hq, rfl⟩ := Option.map_eq_some_iff.1 h
      rw [ih hq]
      rfl

theorem cut_cons_of_not_start {mark : Text} {c : Char} {t : Text} (h : ¬mark <+: c :: t) :
    cut mark (c :: t) = (cut mark t).map fun r => (c :: r.1, r.2) := by
  rw [cut, if_neg fun hstarts => h (startsWith_iff.1 hstarts)]

theorem cut_append_self (mark b : Text) : cut mark (mark ++ b) = some ([], b) := by
  cases mark with
  | nil => cases b <;> rfl
  | cons x mark =>
    have hstarts : startsWith (x :: (mark ++ b)) (x :: mark) = true := startsWith_iff.2 ⟨b, rfl⟩
    rw [List.cons_append, cut, if_pos hstarts, ← List.cons_append, List.drop_left]

/-- Where the first mark stands does not depend on what is behind it. -/
theorem cut_swap {mark a b : Text} (h : cut mark (a ++ mark ++ b) = some (a, b)) (b' : Text) :
    cut mark (a ++ mark ++ b') = some (a, b') := by
  induction a with
  | nil => exact cut_append_self mark b'
  | cons c a ih =>
    have hstart : ∀ b, mark <+: c :: a ++ mark ++ b ↔ mark <+: c :: a ++ mark := by
      intro b
      refine ⟨fun hpre => ?_, fun hpre => hpre.trans (List.prefix_append _ _)⟩
      refine List.prefix_of_prefix_length_le hpre (List.prefix_append _ b) ?_
      rw [List.length_append]
      omega
    have hnot : ¬mark <+: c :: a ++ mark ++ b := by
      intro hpre
      rw [List.cons_append, List.cons_append] at hpre h
      rw [cut, if_pos (startsWith_iff.2 hpre)] at h
      cases h
    have hnot' : ¬mark <+: c :: a ++ mark ++ b' := fun hpre => hnot ((hstart b).2 ((hstart b').1 hpre))
    rw [List.cons_append, List.cons_append] at h hnot hnot' ⊢
    rw [cut_cons_of_not_start hnot] at h
    obtain ⟨r, hr, heq⟩ := Option.map_eq_some_iff.1 h
    cases heq
    rw [cut_cons_of_not_start hnot', ih hr]
    rfl

/-- A mark that starts like no other part of itself is found where it was put. -/
theorem cut_of_not_infix {x : Char} {ms a : Text} (hx : x ∉ ms) (h : ¬x :: ms <:+: a) (b : Text) :
    cut (x :: ms) (a ++ x :: ms ++ b) = some (a, b) := by
  induction a with
  | nil => exact cut_append_self (x :: ms) b
  | cons c a ih =>
    have hnot : ¬x :: ms <+: c :: (a ++ x :: ms ++ b) := by
      intro hpre
      obtain ⟨rfl, hpre⟩ := List.cons_prefix_cons.1 hpre
      obtain ⟨u, hu⟩ := hpre
      rw [List.append_assoc, List.cons_append] at hu
      have hms : ms <+: a := by
        rcases List.append_eq_append_iff.1 (List.cons_eq_cons.1 hu).2 with ⟨m, ha, -⟩ | ⟨m, hms, hm⟩
        · exact ⟨m, ha.symm⟩
        · cases m with
          | nil => exact ⟨[], by rw [hms, List.append_nil, List.append_nil]⟩
          | cons d m =>
            obtain rfl : x = d := (List.cons_eq_cons.1 hm).1
            exact absurd (by rw [hms]; simp) hx
      exact h (List.cons_prefix_cons.2 ⟨rfl, hms⟩).isInfix
    rw [List.cons_append, List.cons_append, cut_cons_of_not_start hnot,
      ih fun hin => h (hin.trans (List.suffix_cons c a).isInfix)]
    rfl

theorem includes_iff {t part : Text} : includes t part = true ↔ part <:+: t := by
  unfold includes
  constructor
  · intro h
    obtain ⟨r, hr⟩ := Option.isSome_iff_exists.1 h
    exact ⟨r.1, r.2, (cut_eq_some hr).symm⟩
  · intro h
    induction t with
    | nil =>
      rw [List.eq_nil_of_infix_nil h]
      rfl
    | cons c t ih =>
      unfold cut
      split
      next => rfl
      next hstarts =>
        rw [Option.isSome_map]
        exact ih ((List.infix_cons_iff.1 h).resolve_left fun hpre => hstarts (startsWith_iff.2 hpre))

theorem infix_intercalate {sep t : Text} {ts : List Text} (h : t ∈ ts) : t <:+: sep.intercalate ts := by
  induction ts with
  | nil => cases h
  | cons u us ih =>
    cases us with
    | nil =>
      rw [List.mem_singleton.1 h]
      exact ⟨[], [], by simp⟩
    | cons w us =>
      rw [List.intercalate_cons_cons]
      rcases List.mem_cons.1 h with rfl | h
      · exact ⟨[], sep ++ sep.intercalate (w :: us), by simp⟩
      · exact (ih h).trans (List.suffix_append _ _).isInfix

/-! ## Code units -/

theorem utf16Length_nil : utf16Length [] = 0 := rfl

theorem utf16Length_cons (c : Char) (t : Text) : utf16Length (c :: t) = units c + utf16Length t := by
  simp only [utf16Length, units, List.map_cons, List.sum_cons]

theorem utf16Length_append (s t : Text) : utf16Length (s ++ t) = utf16Length s + utf16Length t := by
  simp only [utf16Length, List.map_append, List.sum_append]

theorem units_pos (c : Char) : 0 < units c := by
  unfold units
  split <;> omega

theorem splitUnits_unit {c : Char} (h : c.toNat < 0x10000) (n : Nat) (t : Text) :
    splitUnits (n + 1) (c :: t) = (splitUnits n t).map fun r => (c :: r.1, r.2) := by
  cases n <;> exact if_pos h

theorem takeUnits_unit {c : Char} (h : c.toNat < 0x10000) (n : Nat) (t : Text) :
    takeUnits (n + 1) (c :: t) = c :: takeUnits n t := by
  cases n <;> exact if_pos h

theorem dropUnits_unit {c : Char} (h : c.toNat < 0x10000) (n : Nat) (t : Text) :
    dropUnits (n + 1) (c :: t) = dropUnits n t := by
  cases n <;> exact if_pos h

theorem splitUnits_pair {c : Char} (h : ¬c.toNat < 0x10000) (n : Nat) (t : Text) :
    splitUnits (n + 2) (c :: t) = (splitUnits n t).map fun r => (c :: r.1, r.2) := if_neg h

theorem splitUnits_half {c : Char} (h : ¬c.toNat < 0x10000) (t : Text) : splitUnits 1 (c :: t) = none := if_neg h

theorem takeUnits_pair {c : Char} (h : ¬c.toNat < 0x10000) (n : Nat) (t : Text) :
    takeUnits (n + 2) (c :: t) = c :: takeUnits n t := if_neg h

theorem dropUnits_pair {c : Char} (h : ¬c.toNat < 0x10000) (n : Nat) (t : Text) :
    dropUnits (n + 2) (c :: t) = dropUnits n t := if_neg h

theorem splitUnits_length (s t : Text) : splitUnits (utf16Length s) (s ++ t) = some (s, t) := by
  induction s with
  | nil => cases t <;> rfl
  | cons c s ih =>
    rw [utf16Length_cons, units, List.cons_append]
    split
    next h =>
      rw [Nat.add_comm, splitUnits_unit h, ih]
      rfl
    next h =>
      rw [Nat.add_comm, splitUnits_pair h, ih]
      rfl

theorem splitUnits_append {n : Nat} {t : Text} {r : Text × Text} (h : splitUnits n t = some r) : r.1 ++ r.2 = t := by
  induction n, t using splitUnits.induct generalizing r with
  | case1 t =>
    rw [splitUnits] at h
    cases h
    rfl
  | case2 n hn =>
    cases n with
    | zero => exact absurd rfl hn
    | succ n =>
      cases h
      rfl
  | case3 n c t hc ih =>
    rw [splitUnits_unit hc] at h
    obtain ⟨q, hq, rfl⟩ := Option.map_eq_some_iff.1 h
    rw [List.cons_append, ih hq]
  | case4 c t hc =>
    rw [splitUnits_half hc] at h
    cases h
  | case5 c t hc n ih =>
    rw [splitUnits_pair hc] at h
    obtain ⟨q, hq, rfl⟩ := Option.map_eq_some_iff.1 h
    rw [List.cons_append, ih hq]

/-- With something behind it, an offset is as far as what is split off. -/
theorem length_of_splitUnits {n : Nat} {t : Text} {r : Text × Text} (h : splitUnits n t = some r) (hr : r.2 ≠ []) :
    utf16Length r.1 = n := by
  induction n, t using splitUnits.induct generalizing r with
  | case1 t =>
    rw [splitUnits] at h
    cases h
    rfl
  | case2 n hne =>
    cases n with
    | zero => exact absurd rfl hne
    | succ n =>
      cases h
      exact absurd rfl hr
  | case3 n c t hc ih =>
    rw [splitUnits_unit hc] at h
    obtain ⟨q, hq, rfl⟩ := Option.map_eq_some_iff.1 h
    rw [utf16Length_cons, units, if_pos hc, ih hq hr]
    omega
  | case4 c t hc =>
    rw [splitUnits_half hc] at h
    cases h
  | case5 c t hc n ih =>
    rw [splitUnits_pair hc] at h
    obtain ⟨q, hq, rfl⟩ := Option.map_eq_some_iff.1 h
    rw [utf16Length_cons, units, if_neg hc, ih hq hr]
    omega

/-- An offset between two characters, or at an end. -/
def Boundary (t : Text) (n : Nat) : Prop := ∃ a b, t = a ++ b ∧ utf16Length a = n

/-- `t.slice(start, stop)`. -/
def slice (t : Text) (start stop : Nat) : Text := takeUnits (stop - start) (dropUnits start t)

theorem takeUnits_length (s t : Text) : takeUnits (utf16Length s) (s ++ t) = s := by
  induction s with
  | nil => cases t <;> rfl
  | cons c s ih =>
    rw [utf16Length_cons, units, List.cons_append]
    split
    next h => rw [Nat.add_comm, takeUnits_unit h, ih]
    next h => rw [Nat.add_comm, takeUnits_pair h, ih]

theorem dropUnits_length (s t : Text) : dropUnits (utf16Length s) (s ++ t) = t := by
  induction s with
  | nil => cases t <;> rfl
  | cons c s ih =>
    rw [utf16Length_cons, units, List.cons_append]
    split
    next h => rw [Nat.add_comm, dropUnits_unit h, ih]
    next h => rw [Nat.add_comm, dropUnits_pair h, ih]

theorem slice_infix {t : Text} {start stop : Nat} (hstart : Boundary t start) (hstop : Boundary t stop) :
    slice t start stop <:+: t := by
  obtain ⟨a, b, rfl, rfl⟩ := hstart
  obtain ⟨c, d, heq, rfl⟩ := hstop
  rw [slice, dropUnits_length]
  rcases List.append_eq_append_iff.1 heq with ⟨m, hc, hb⟩ | ⟨m, ha, hd⟩
  · have hlen : utf16Length c - utf16Length a = utf16Length m := by
      rw [hc, utf16Length_append]
      omega
    rw [hlen, hb, takeUnits_length]
    exact ⟨a, d, (List.append_assoc _ _ _)⟩
  · have hlen : utf16Length c - utf16Length a = 0 := by
      rw [ha, utf16Length_append]
      omega
    rw [hlen]
    exact List.nil_infix

/-- Two texts that end at one offset of a third are the same. -/
theorem append_inj_units {a b c d : Text} (h : a ++ b = c ++ d) (hlen : utf16Length a = utf16Length c) :
    a = c ∧ b = d := by
  have hsplit := splitUnits_length a b
  rw [h, hlen, splitUnits_length] at hsplit
  cases hsplit
  exact ⟨rfl, rfl⟩

/-- Of two beginnings of a text the shorter one is a beginning of the other. -/
theorem append_split {s t u v : Text} (h : s ++ t = u ++ v) (hle : utf16Length s ≤ utf16Length u) :
    ∃ m, u = s ++ m ∧ t = m ++ v := by
  rcases List.append_eq_append_iff.1 h with ⟨m, hu, ht⟩ | ⟨m, hs, hv⟩
  · exact ⟨m, hu, ht⟩
  · obtain rfl : m = [] := by
      cases m with
      | nil => rfl
      | cons c m =>
        rw [hs, utf16Length_append, utf16Length_cons] at hle
        have := units_pos c
        omega
    refine ⟨[], ?_, ?_⟩
    · rw [hs, List.append_nil, List.append_nil]
    · rw [hv]
      rfl

/-! ## Sorting -/

theorem unitOrder_inj {c d : Char} (h : unitOrder c = unitOrder d) : c = d := by
  have hvalid : ∀ c : Char, c.toNat < 0x110000 := fun c => by
    rcases c.valid with h | h
    · exact Nat.lt_trans h (by decide)
    · exact h.2
  have hc := hvalid c
  have hd := hvalid d
  refine Char.toNat_inj.1 ?_
  unfold unitOrder at h
  split at h <;> split at h <;> omega

theorem le_total (s t : Text) : le s t = true ∨ le t s = true := by
  induction s generalizing t with
  | nil => exact Or.inl rfl
  | cons c s ih =>
    cases t with
    | nil => exact Or.inr rfl
    | cons d t =>
      simp only [le, Bool.or_eq_true, decide_eq_true_eq, Bool.and_eq_true, beq_iff_eq]
      rcases Nat.lt_trichotomy (unitOrder c) (unitOrder d) with h | h | h
      · exact Or.inl (Or.inl h)
      · have hcd : c = d := unitOrder_inj h
        rcases ih t with h | h
        · exact Or.inl (Or.inr ⟨hcd, h⟩)
        · exact Or.inr (Or.inr ⟨hcd.symm, h⟩)
      · exact Or.inr (Or.inl h)

theorem le_antisymm {s t : Text} (hst : le s t = true) (hts : le t s = true) : s = t := by
  induction s generalizing t with
  | nil =>
    cases t with
    | nil => rfl
    | cons d t => cases hts
  | cons c s ih =>
    cases t with
    | nil => cases hst
    | cons d t =>
      simp only [le, Bool.or_eq_true, decide_eq_true_eq, Bool.and_eq_true, beq_iff_eq] at hst hts
      rcases hst with h | ⟨rfl, hst⟩
      · rcases hts with h' | ⟨rfl, -⟩ <;> omega
      · rcases hts with h' | ⟨-, hts⟩
        · omega
        · rw [ih hst hts]

theorem le_trans {s t u : Text} (hst : le s t = true) (htu : le t u = true) : le s u = true := by
  induction s generalizing t u with
  | nil => rfl
  | cons c s ih =>
    cases t with
    | nil => cases hst
    | cons d t =>
      cases u with
      | nil => cases htu
      | cons e u =>
        simp only [le, Bool.or_eq_true, decide_eq_true_eq, Bool.and_eq_true, beq_iff_eq] at hst htu ⊢
        rcases hst with h | ⟨rfl, hst⟩
        · rcases htu with h' | ⟨rfl, -⟩
          · exact Or.inl (by omega)
          · exact Or.inl h
        · rcases htu with h' | ⟨rfl, htu⟩
          · exact Or.inl h'
          · exact Or.inr ⟨rfl, ih hst htu⟩

theorem sort_perm (ts : List Text) : (sort ts).Perm ts := List.perm_insertionSort _ ts

/-- Sorting forgets the order, and nothing else. -/
theorem sort_eq_of_perm {ss ts : List Text} (h : ss.Perm ts) : sort ss = sort ts := by
  have htotal : Std.Total fun s t : Text => le s t = true := ⟨le_total⟩
  have htrans : IsTrans Text fun s t => le s t = true := ⟨fun _ _ _ => le_trans⟩
  refine List.Perm.eq_of_pairwise (fun a b _ _ => le_antisymm)
    (List.pairwise_insertionSort _ ss) (List.pairwise_insertionSort _ ts) ?_
  exact (sort_perm ss).trans (h.trans (sort_perm ts).symm)

theorem length_terminated (ls : List Text) : (terminated ls).length = (ls.map fun l => l.length + 1).sum := by
  induction ls with
  | nil => rfl
  | cons l ls ih => simp [ih]; omega

/-- Distinct texts that join to the same text as a list they are taken from are all of it. -/
theorem perm_of_join_eq {ss ts : List Text} (hss : ss.Nodup) (hsub : ∀ s ∈ ss, s ∈ ts)
    (hne : ss ≠ []) (h : join (sort ss) = join (sort ts)) : ss.Perm ts := by
  obtain ⟨ls, hls, hsublist⟩ := List.subperm_of_subset hss hsub
  obtain ⟨us, hus⟩ := hsublist.exists_perm_append
  have hperm : ts.Perm (ss ++ us) := hus.trans (hls.append_right us)
  have hsum : (terminated ss).length = (terminated ts).length := by
    have hsort : ∀ {ls : List Text}, ls ≠ [] → (join (sort ls)).length + 1 = (terminated ls).length := by
      intro ls hls
      have hls' : sort ls ≠ [] := fun hnil => hls ((sort_perm ls).symm.trans (by rw [hnil])).eq_nil
      have hlen := congrArg List.length (join_append_newline hls')
      rw [List.length_append, List.length_singleton] at hlen
      rw [hlen, length_terminated, length_terminated]
      exact ((sort_perm ls).map _).sum_nat
    have hts' : ts ≠ [] := by
      rintro rfl
      obtain ⟨s, hs⟩ := List.exists_mem_of_ne_nil ss hne
      cases hsub s hs
    rw [← hsort hne, ← hsort hts', h]
  have hus : us = [] := by
    have hlen : (terminated ts).length = (terminated ss).length + (terminated us).length := by
      rw [length_terminated, (hperm.map _).sum_nat, ← length_terminated, terminated_append, List.length_append]
    cases us with
    | nil => rfl
    | cons u us =>
      rw [terminated_cons, List.length_append, List.length_cons] at hlen
      omega
  rw [hus, List.append_nil] at hperm
  exact hperm.symm

end Text
end Zenod
