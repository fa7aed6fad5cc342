/-
Quotes resolved to the source (`engine/sourceQuote.ts`, and
`canonicalSourceQuote` of `engine/reconciliation.ts`): a quote that occurs in a
run of source text stands for itself, and one that differs from it in white
space only for the text it occurs as.

`canonicalSourceQuote_infix`: whatever is given for the quote, the result is a
slice of the source.
-/
import Zenod.Lib.Regex

namespace Zenod.Engine

open Text

/-! ## Resolving a quote -/

structure SourceQuoteRun where
  start : Nat
  text : Text

structure RawSourceQuote where
  start : Nat
  stop : Nat
  quote : Text
deriving DecidableEq

structure QuoteOptions where
  maxRawChars : Nat
  exactOccurrence : Option Nat := none
  uniqueExact : Bool := false
  overlap : Option (Nat × Nat) := none

/-- A character of the normalized text and the raw extent it stands for. -/
structure MappedChar where
  char : Char
  start : Nat
  stop : Nat

variable (unicode : Unicode)

/-- White space is dropped between a sentence's punctuation and a letter, unless a number comes before:
`before` is what stands before it, last character first, and `after` what stands behind it. -/
def isDropped (before after : Text) : Bool :=
  before.head?.any (fun c => c == '.' || c == '!' || c == '?') &&
    !(before[1]?.any fun c => units c == 1 && unicode.isNumber c) && after.head?.any unicode.isLetter

/-- The map from an offset on; `skip` characters belong to white space already mapped. -/
def whitespaceMapFrom : Nat → Text → Nat → Text → List MappedChar
  | _, _, _, [] => []
  | skip + 1, before, offset, c :: t => whitespaceMapFrom skip (c :: before) (offset + units c) t
  | 0, before, offset, c :: t =>
    if Js.isSpace c then
      let space := t.takeWhile Js.isSpace
      let later := whitespaceMapFrom space.length (c :: before) (offset + units c) t
      if isDropped unicode before (t.dropWhile Js.isSpace) then later
      else { char := ' ', start := offset, stop := offset + units c + utf16Length space } :: later
    else { char := c, start := offset, stop := offset + units c } :: whitespaceMapFrom 0 (c :: before) (offset + units c) t

def whitespaceMap (t : Text) : List MappedChar := whitespaceMapFrom unicode 0 [] 0 t

/-- The offsets at which a text stands in another. -/
def occurrencesFrom (needle : Text) : Nat → Text → List Nat
  | offset, [] => if needle = [] then [offset] else []
  | offset, c :: t =>
    (if startsWith (c :: t) needle then [offset] else []) ++ occurrencesFrom needle (offset + units c) t

def occurrences (needle t : Text) : List Nat := occurrencesFrom needle 0 t

/-- The raw extents at which a normalized text stands in a map. -/
def mappedOccurrences (needle : Text) : List MappedChar → List (Nat × Nat)
  | [] => []
  | m :: ms =>
    let found := (m :: ms).take needle.length
    (if found.map (·.char) = needle then [(m.start, (found.getLast?.map (·.stop)).getD m.stop)] else []) ++
      mappedOccurrences needle ms

def exactMatches (runs : List SourceQuoteRun) (quote : Text) : List RawSourceQuote :=
  runs.flatMap fun run => (occurrences quote run.text).map fun place =>
    { start := run.start + place, stop := run.start + place + utf16Length quote, quote := quote }

def fallbackMatches (runs : List SourceQuoteRun) (quote : Text) : List RawSourceQuote :=
  let needle := (whitespaceMap unicode quote).map (·.char)
  runs.flatMap fun run => (mappedOccurrences needle (whitespaceMap unicode run.text)).map fun extent =>
    { start := run.start + extent.1, stop := run.start + extent.2, quote := slice run.text extent.1 extent.2 }

def QuoteOptions.overlaps (options : QuoteOptions) (found : RawSourceQuote) : Bool :=
  match options.overlap with
  | none => true
  | some extent => found.start < extent.2 && extent.1 < found.stop

def resolveRawSourceQuote (runs : List SourceQuoteRun) (quote : Text) (options : QuoteOptions) :
    Option RawSourceQuote :=
  if trim quote = [] ∨ options.maxRawChars < utf16Length quote then none
  else
    match (exactMatches runs quote).filter options.overlaps with
    | [found] => some found
    | first :: second :: rest =>
      if options.uniqueExact then none else (first :: second :: rest)[options.exactOccurrence.getD 0]?
    | [] =>
      match fallbackMatches unicode runs quote with
      | [found] => if options.overlaps found ∧ utf16Length found.quote ≤ options.maxRawChars then some found else none
      | _ => none

/-! ## Quotes of host-addressed sources -/

structure ReconciliationSource where
  id : Text
  start : Int
  stop : Int
  text : Text
deriving DecidableEq

/-- Every source has the address of its text, in the content if there is one, behind the one before. -/
def wellAddressed (sourceContent : Option Text) : Option Int → List ReconciliationSource → Bool
  | _, [] => true
  | previous, s :: rest =>
    Js.isSafeInteger s.start && Js.isSafeInteger s.stop && 0 ≤ s.start && s.start < s.stop &&
      s.stop - s.start == (utf16Length s.text : Int) && previous.all (· ≤ s.start) &&
      sourceContent.all (fun content => isSlice content s.start.toNat s.stop.toNat s.text) &&
      wellAddressed sourceContent (some s.stop) rest

/-- The runs so far, last one first, and one more source: adjacent texts are joined. -/
def addSource (runs : List SourceQuoteRun) (s : ReconciliationSource) : List SourceQuoteRun :=
  match runs with
  | [] => [{ start := s.start.toNat, text := s.text }]
  | previous :: rest =>
    if ((previous.start + utf16Length previous.text : Nat) : Int) = s.start then
      { previous with text := previous.text ++ s.text } :: rest
    else { start := s.start.toNat, text := s.text } :: previous :: rest

def sourceRuns (ordered : List ReconciliationSource) : List SourceQuoteRun := (ordered.foldl addSource []).reverse

def canonicalSourceQuote (sources : List ReconciliationSource) (quote : Text) (limit : Nat)
    (sourceContent : Option Text) : Option Text :=
  let ordered := sources.insertionSort (·.start ≤ ·.start)
  if trim quote = [] ∨ limit < utf16Length quote ∨ sources = [] then none
  else if wellAddressed sourceContent none ordered = false then none
  else (resolveRawSourceQuote unicode (sourceRuns ordered) quote { maxRawChars := limit }).map (·.quote)

/-! ## What a quote resolves to -/

variable {unicode}

theorem infix_of_occurrence {needle t : Text} {offset place : Nat} (h : place ∈ occurrencesFrom needle offset t) :
    needle <:+: t := by
  induction t generalizing offset with
  | nil =>
    unfold occurrencesFrom at h
    split at h
    next hnil => exact hnil ▸ List.nil_infix
    next => cases h
  | cons c t ih =>
    rcases List.mem_append.1 h with h | h
    · split at h
      next hstarts => exact (List.isPrefixOf_iff_prefix.1 hstarts).isInfix
      next => cases h
    · exact (ih h).trans (List.suffix_cons c t).isInfix

theorem boundary_of_whitespaceMapFrom {skip offset : Nat} {before t : Text} {m : MappedChar} (pre : Text)
    (h : m ∈ whitespaceMapFrom unicode skip before offset t) (hoffset : utf16Length pre = offset) :
    Boundary (pre ++ t) m.start ∧ Boundary (pre ++ t) m.stop := by
  have hnext : ∀ (pre : Text) (c : Char), utf16Length (pre ++ [c]) = utf16Length pre + units c := by
    intro pre c
    rw [utf16Length_append]
    rfl
  induction skip, before, offset, t using whitespaceMapFrom.induct unicode generalizing pre with
  | case1 => cases h
  | case2 skip before offset c t ih =>
    have hstep := ih (pre ++ [c]) h (by rw [hnext, hoffset])
    rwa [List.append_assoc] at hstep
  | case3 before offset c t hspace space hdropped ih =>
    rw [whitespaceMapFrom, if_pos hspace, if_pos hdropped] at h
    have hstep := ih (pre ++ [c]) h (by rw [hnext, hoffset])
    rwa [List.append_assoc] at hstep
  | case4 before offset c t hspace space hkept ih =>
    rw [whitespaceMapFrom, if_pos hspace, if_neg hkept] at h
    rcases List.mem_cons.1 h with rfl | h
    · refine ⟨⟨pre, c :: t, rfl, hoffset⟩, ⟨pre ++ c :: space, t.dropWhile Js.isSpace, ?_, ?_⟩⟩
      · rw [List.append_assoc, List.cons_append, List.takeWhile_append_dropWhile]
      · rw [utf16Length_append, utf16Length_cons, hoffset]
        exact (Nat.add_assoc _ _ _).symm
    · have hstep := ih (pre ++ [c]) h (by rw [hnext, hoffset])
      rwa [List.append_assoc] at hstep
  | case5 before offset c t hspace ih =>
    rw [whitespaceMapFrom, if_neg hspace] at h
    rcases List.mem_cons.1 h with rfl | h
    · refine ⟨⟨pre, c :: t, rfl, hoffset⟩, ⟨pre ++ [c], t, ?_, ?_⟩⟩
      · rw [List.append_assoc, List.singleton_append]
      · rw [hnext, hoffset]
    · have hstep := ih (pre ++ [c]) h (by rw [hnext, hoffset])
      rwa [List.append_assoc] at hstep

theorem mem_of_mappedOccurrence {needle : Text} {ms : List MappedChar} {extent : Nat × Nat}
    (h : extent ∈ mappedOccurrences needle ms) : ∃ m ∈ ms, ∃ n ∈ ms, extent = (m.start, n.stop) := by
  induction ms with
  | nil => cases h
  | cons m ms ih =>
    rcases List.mem_append.1 h with h | h
    · split at h
      next =>
        rw [List.mem_singleton] at h
        refine ⟨m, List.mem_cons_self, ?_⟩
        cases hlast : ((m :: ms).take needle.length).getLast? with
        | none =>
          rw [hlast] at h
          exact ⟨m, List.mem_cons_self, h⟩
        | some n =>
          rw [hlast] at h
          exact ⟨n, List.mem_of_mem_take (List.mem_of_getLast? hlast), h⟩
      next => cases h
    · obtain ⟨m', hm', n, hn, heq⟩ := ih h
      exact ⟨m', List.mem_cons_of_mem _ hm', n, List.mem_cons_of_mem _ hn, heq⟩

theorem resolveRawSourceQuote_cases {runs : List SourceQuoteRun} {quote : Text} {options : QuoteOptions}
    {found : RawSourceQuote} (h : resolveRawSourceQuote unicode runs quote options = some found) :
    trim quote ≠ [] ∧ (found ∈ exactMatches runs quote ∨ found ∈ fallbackMatches unicode runs quote) := by
  have hexact : ∀ q ∈ (exactMatches runs quote).filter options.overlaps, q ∈ exactMatches runs quote :=
    fun q hq => (List.mem_filter.1 hq).1
  unfold resolveRawSourceQuote at h
  split at h
  next => cases h
  next hquote =>
    refine ⟨(not_or.1 hquote).1, ?_⟩
    split at h
    next q hq =>
      cases h
      exact Or.inl (hexact found (hq ▸ List.mem_singleton_self _))
    next first second rest hq =>
      split at h
      next => cases h
      next => exact Or.inl (hexact found (hq ▸ List.mem_of_getElem? h))
    next =>
      split at h
      next q hq =>
        split at h
        next =>
          cases h
          exact Or.inr (hq ▸ List.mem_singleton_self _)
        next => cases h
      next => cases h

/-- **A resolved quote is a slice of one of the runs.** -/
theorem resolveRawSourceQuote_infix {runs : List SourceQuoteRun} {quote : Text} {options : QuoteOptions}
    {found : RawSourceQuote} (h : resolveRawSourceQuote unicode runs quote options = some found) :
    ∃ run ∈ runs, found.quote <:+: run.text := by
  obtain ⟨-, hfound | hfound⟩ := resolveRawSourceQuote_cases h
  · obtain ⟨run, hrun, hfound⟩ := List.mem_flatMap.1 hfound
    obtain ⟨place, hplace, rfl⟩ := List.mem_map.1 hfound
    exact ⟨run, hrun, infix_of_occurrence hplace⟩
  · obtain ⟨run, hrun, hfound⟩ := List.mem_flatMap.1 hfound
    obtain ⟨extent, hextent, rfl⟩ := List.mem_map.1 hfound
    obtain ⟨m, hm, n, hn, rfl⟩ := mem_of_mappedOccurrence hextent
    exact ⟨run, hrun, slice_infix (boundary_of_whitespaceMapFrom [] hm rfl).1
      (boundary_of_whitespaceMapFrom [] hn rfl).2⟩

/-! ## A resolved quote says something -/

theorem trim_ne_nil_iff {t : Text} : trim t ≠ [] ↔ ∃ c ∈ t, Js.isSpace c = false := by
  constructor
  · intro h
    have htight := tight_trim t
    cases hhead : trim t with
    | nil => exact absurd hhead h
    | cons d u =>
      rw [hhead] at htight
      exact ⟨d, trim_subset (by rw [hhead]; exact List.mem_cons_self), htight.1 d rfl⟩
  · rintro ⟨c, hc, hspace⟩ hnil
    rw [trim_eq, List.rdropWhile_eq_nil_iff] at hnil
    have hdrop : t.dropWhile Js.isSpace = [] := by
      cases hd : t.dropWhile Js.isSpace with
      | nil => rfl
      | cons d u =>
        have hne : t.dropWhile Js.isSpace ≠ [] := by rw [hd]; exact List.cons_ne_nil _ _
        have hfirst := List.head_dropWhile_not Js.isSpace hne
        rw [hnil _ (List.head_mem hne)] at hfirst
        cases hfirst
    rw [List.dropWhile_eq_nil_iff] at hdrop
    rw [hdrop c hc] at hspace
    cases hspace

/-- What is not white space is mapped, as itself. -/
theorem mem_whitespaceMapFrom {skip offset : Nat} {before t : Text} {c : Char} (hspace : Js.isSpace c = false)
    (hskip : skip ≤ (t.takeWhile Js.isSpace).length) (hc : c ∈ t) :
    c ∈ (whitespaceMapFrom unicode skip before offset t).map (·.char) := by
  have hother : ∀ {d : Char} {t : Text}, Js.isSpace d = true → c ∈ d :: t → c ∈ t := by
    intro d t hd hc
    rcases List.mem_cons.1 hc with rfl | hc
    · rw [hd] at hspace
      cases hspace
    · exact hc
  induction skip, before, offset, t using whitespaceMapFrom.induct unicode with
  | case1 => cases hc
  | case2 skip before offset d t ih =>
    rw [List.takeWhile_cons] at hskip
    split at hskip
    next hd =>
      rw [whitespaceMapFrom]
      exact ih (Nat.le_of_succ_le_succ hskip) (hother hd hc)
    next => cases hskip
  | case3 before offset d t hd space hdropped ih =>
    rw [whitespaceMapFrom, if_pos hd, if_pos hdropped]
    exact ih Nat.le.refl (hother hd hc)
  | case4 before offset d t hd space hkept ih =>
    rw [whitespaceMapFrom, if_pos hd, if_neg hkept]
    exact List.mem_cons_of_mem _ (ih Nat.le.refl (hother hd hc))
  | case5 before offset d t hd ih =>
    rw [whitespaceMapFrom, if_neg hd, List.map_cons]
    rcases List.mem_cons.1 hc with rfl | hc
    · exact List.mem_cons_self
    · exact List.mem_cons_of_mem _ (ih (Nat.zero_le _) hc)

/-- The extents of a map follow one another, from an offset on. -/
structure Extents (offset : Nat) (ms : List MappedChar) : Prop where
  ordered : ms.Pairwise fun a b => a.stop ≤ b.start
  bounds : ∀ m ∈ ms, offset ≤ m.start ∧ m.start ≤ m.stop

theorem Extents.cons {offset : Nat} {m : MappedChar} {ms : List MappedChar} (h : Extents m.stop ms)
    (hoffset : offset ≤ m.start) (hm : m.start ≤ m.stop) : Extents offset (m :: ms) where
  ordered := List.pairwise_cons.2 ⟨fun b hb => (h.bounds b hb).1, h.ordered⟩
  bounds := fun b hb => by
    rcases List.mem_cons.1 hb with rfl | hb
    · exact ⟨hoffset, hm⟩
    · have := h.bounds b hb
      omega

theorem extents_of_whitespaceMapFrom (skip offset : Nat) (before t : Text) :
    Extents (offset + utf16Length (t.take skip)) (whitespaceMapFrom unicode skip before offset t) := by
  induction skip, before, offset, t using whitespaceMapFrom.induct unicode with
  | case1 => exact ⟨List.Pairwise.nil, fun m hm => by cases hm⟩
  | case2 skip before offset c t ih =>
    rw [whitespaceMapFrom, List.take_succ_cons, utf16Length_cons, ← Nat.add_assoc]
    exact ih
  | case3 before offset c t hspace space hdropped ih =>
    rw [whitespaceMapFrom, if_pos hspace, if_pos hdropped]
    refine ⟨ih.ordered, fun m hm => ?_⟩
    have := ih.bounds m hm
    rw [List.take_zero, utf16Length_nil]
    omega
  | case4 before offset c t hspace space hkept ih =>
    rw [whitespaceMapFrom, if_pos hspace, if_neg hkept]
    have htake : t.take space.length = space := (List.prefix_iff_eq_take.1 (List.takeWhile_prefix Js.isSpace)).symm
    rw [htake] at ih
    refine ih.cons Nat.le.refl ?_
    show offset ≤ offset + units c + utf16Length space
    omega
  | case5 before offset c t hspace ih =>
    rw [whitespaceMapFrom, if_neg hspace]
    rw [List.take_zero, utf16Length_nil] at ih
    refine ih.cons Nat.le.refl ?_
    show offset ≤ offset + units c
    omega

/-- A character of the map that is not white space stands in the text at its extent. -/
theorem placed_of_whitespaceMapFrom {skip offset : Nat} {before t : Text} {m : MappedChar} (pre : Text)
    (h : m ∈ whitespaceMapFrom unicode skip before offset t) (hoffset : utf16Length pre = offset)
    (hspace : Js.isSpace m.char = false) :
    ∃ u v, pre ++ t = u ++ m.char :: v ∧ utf16Length u = m.start ∧ m.stop = m.start + units m.char := by
  have hnext : ∀ (pre : Text) (c : Char), utf16Length (pre ++ [c]) = utf16Length pre + units c := by
    intro pre c
    rw [utf16Length_append]
    rfl
  have hassoc : ∀ (pre : Text) (c : Char) (t : Text), pre ++ [c] ++ t = pre ++ c :: t := by
    intro pre c t
    rw [List.append_assoc, List.singleton_append]
  induction skip, before, offset, t using whitespaceMapFrom.induct unicode generalizing pre with
  | case1 => cases h
  | case2 skip before offset c t ih => exact hassoc pre c t ▸ ih (pre ++ [c]) h (by rw [hnext, hoffset])
  | case3 before offset c t hc space hdropped ih =>
    rw [whitespaceMapFrom, if_pos hc, if_pos hdropped] at h
    exact hassoc pre c t ▸ ih (pre ++ [c]) h (by rw [hnext, hoffset])
  | case4 before offset c t hc space hkept ih =>
    rw [whitespaceMapFrom, if_pos hc, if_neg hkept] at h
    rcases List.mem_cons.1 h with rfl | h
    · cases hspace
    · exact hassoc pre c t ▸ ih (pre ++ [c]) h (by rw [hnext, hoffset])
  | case5 before offset c t hc ih =>
    rw [whitespaceMapFrom, if_neg hc] at h
    rcases List.mem_cons.1 h with rfl | h
    · exact ⟨pre, t, rfl, hoffset, rfl⟩
    · exact hassoc pre c t ▸ ih (pre ++ [c]) h (by rw [hnext, hoffset])

/-- An occurrence's extent takes in the extent of every character of the needle. -/
theorem mem_of_mappedOccurrence_char {needle : Text} {offset : Nat} {ms : List MappedChar} {extent : Nat × Nat} {c : Char}
    (hms : Extents offset ms) (h : extent ∈ mappedOccurrences needle ms) (hc : c ∈ needle) :
    ∃ k ∈ ms, k.char = c ∧ extent.1 ≤ k.start ∧ k.stop ≤ extent.2 := by
  induction ms generalizing offset with
  | nil => cases h
  | cons m ms ih =>
    obtain ⟨hfirst, hordered⟩ := List.pairwise_cons.1 hms.ordered
    rcases List.mem_append.1 h with h | h
    · split at h
      next hfound =>
        rw [List.mem_singleton] at h
        rw [← hfound] at hc
        obtain ⟨k, hk, rfl⟩ := List.mem_map.1 hc
        have hkms := List.mem_of_mem_take hk
        refine ⟨k, hkms, rfl, ?_, ?_⟩
        · rw [h]
          rcases List.mem_cons.1 hkms with rfl | hk'
          · exact Nat.le.refl
          · have := hfirst k hk'
            have := (hms.bounds m List.mem_cons_self).2
            show m.start ≤ k.start
            omega
        · obtain ⟨n, hlast⟩ : ∃ n, ((m :: ms).take needle.length).getLast? = some n := by
            cases hl : ((m :: ms).take needle.length).getLast? with
            | some n => exact ⟨n, rfl⟩
            | none =>
              rw [List.getLast?_eq_none_iff.1 hl] at hk
              cases hk
          rw [h, hlast]
          show k.stop ≤ n.stop
          obtain ⟨front, hfront⟩ := List.getLast?_eq_some_iff.1 hlast
          have hpairs := hms.ordered.sublist (List.take_sublist needle.length _)
          rw [hfront, List.pairwise_append] at hpairs
          rw [hfront] at hk
          rcases List.mem_append.1 hk with hk | hk
          · have := hpairs.2.2 k hk n (List.mem_singleton_self n)
            have := (hms.bounds n (List.mem_of_mem_take (List.mem_of_getLast? hlast))).2
            omega
          · rw [List.mem_singleton.1 hk]
      next => cases h
    · have hrest : Extents m.stop ms := ⟨hordered, fun b hb => ⟨hfirst b hb, (hms.bounds b (List.mem_cons_of_mem _ hb)).2⟩⟩
      obtain ⟨k, hk, hrest⟩ := ih hrest h
      exact ⟨k, List.mem_cons_of_mem _ hk, hrest⟩

theorem mem_slice {t u v : Text} {c : Char} {start stop : Nat} (ht : t = u ++ c :: v) (hstart : Boundary t start)
    (hstop : Boundary t stop) (hle : start ≤ utf16Length u) (hlast : utf16Length u + units c ≤ stop) :
    c ∈ slice t start stop := by
  obtain ⟨a, b, hab, rfl⟩ := hstart
  obtain ⟨d, e, hde, rfl⟩ := hstop
  obtain ⟨w, rfl, hb⟩ := append_split (hab.symm.trans ht) hle
  have hlength : utf16Length (a ++ w ++ [c]) ≤ utf16Length d := by
    rw [utf16Length_append]
    exact hlast
  have hsplit : a ++ w ++ [c] ++ v = d ++ e := by
    rw [← hde, ht, List.append_assoc (a ++ w), List.singleton_append]
  obtain ⟨x, rfl, rfl⟩ := append_split hsplit hlength
  have hdrop : dropUnits (utf16Length a) t = w ++ [c] ++ x ++ e := by
    rw [hab, dropUnits_length, hb]
    simp only [List.append_assoc, List.cons_append, List.nil_append]
  have hcount : utf16Length (a ++ w ++ [c] ++ x) - utf16Length a = utf16Length (w ++ [c] ++ x) := by
    simp only [utf16Length_append]
    omega
  rw [slice, hdrop, hcount, takeUnits_length]
  exact List.mem_append_left x (List.mem_append_right w (List.mem_singleton_self c))

/-- **A resolved quote is not blank.** -/
theorem resolveRawSourceQuote_trim {runs : List SourceQuoteRun} {quote : Text} {options : QuoteOptions}
    {found : RawSourceQuote} (h : resolveRawSourceQuote unicode runs quote options = some found) :
    trim found.quote ≠ [] := by
  obtain ⟨hquote, hfound | hfound⟩ := resolveRawSourceQuote_cases h
  · obtain ⟨run, -, hfound⟩ := List.mem_flatMap.1 hfound
    obtain ⟨place, -, rfl⟩ := List.mem_map.1 hfound
    exact hquote
  · obtain ⟨run, -, hfound⟩ := List.mem_flatMap.1 hfound
    obtain ⟨extent, hextent, rfl⟩ := List.mem_map.1 hfound
    obtain ⟨c, hc, hspace⟩ := trim_ne_nil_iff.1 hquote
    have hneedle : c ∈ (whitespaceMap unicode quote).map (·.char) := mem_whitespaceMapFrom hspace (Nat.zero_le _) hc
    obtain ⟨k, hk, rfl, hle, hlast⟩ :=
      mem_of_mappedOccurrence_char (extents_of_whitespaceMapFrom 0 0 [] run.text) hextent hneedle
    obtain ⟨u, v, ht, hu, hstop⟩ := placed_of_whitespaceMapFrom [] hk rfl hspace
    obtain ⟨m, hm, n, hn, rfl⟩ := mem_of_mappedOccurrence hextent
    have hstart := (boundary_of_whitespaceMapFrom [] hm rfl).1
    have hend := (boundary_of_whitespaceMapFrom [] hn rfl).2
    refine trim_ne_nil_iff.2 ⟨k.char, mem_slice ht hstart hend ?_ ?_, hspace⟩
    · rw [hu]
      exact hle
    · rw [hu, ← hstop]
      exact hlast

theorem canonicalSourceQuote_trim {sourceContent : Option Text} {sources : List ReconciliationSource}
    {quote found : Text} {limit : Nat}
    (h : canonicalSourceQuote unicode sources quote limit sourceContent = some found) : trim found ≠ [] := by
  simp only [canonicalSourceQuote] at h
  split at h
  next => cases h
  next =>
    split at h
    next => cases h
    next =>
      obtain ⟨raw, hraw, rfl⟩ := Option.map_eq_some_iff.1 h
      exact resolveRawSourceQuote_trim hraw

/-! ## Sources that are slices -/

/-- The source's text stands in the content at its address. -/
def ReconciliationSource.Exact (content : Text) (s : ReconciliationSource) : Prop :=
  ∃ a b, content = a ++ s.text ++ b ∧ (utf16Length a : Int) = s.start ∧ s.stop = s.start + utf16Length s.text

def SourceQuoteRun.Exact (content : Text) (run : SourceQuoteRun) : Prop :=
  ∃ a b, content = a ++ run.text ++ b ∧ utf16Length a = run.start

theorem exact_of_wellAddressed {content : Text} {previous : Option Int} {sources : List ReconciliationSource}
    (h : wellAddressed (some content) previous sources = true) : ∀ s ∈ sources, s.Exact content := by
  induction sources generalizing previous with
  | nil =>
    intro s hs
    cases hs
  | cons s rest ih =>
    simp only [wellAddressed, Bool.and_eq_true, decide_eq_true_eq, beq_iff_eq, Option.all_some] at h
    obtain ⟨⟨⟨⟨⟨⟨⟨-, -⟩, hstart⟩, hlt⟩, hlength⟩, -⟩, hslice⟩, hrest⟩ := h
    intro s' hs'
    rcases List.mem_cons.1 hs' with rfl | hs'
    · obtain ⟨r, hr, hslice⟩ := Option.any_eq_true _ _ |>.1 hslice
      obtain ⟨q, hq, htext⟩ := Option.any_eq_true _ _ |>.1 hslice
      rw [decide_eq_true_eq] at htext
      have hne : r.2 ≠ [] := by
        intro hnil
        have happend := splitUnits_append hq
        rw [hnil, htext] at happend
        have hempty := (List.append_eq_nil_iff.1 happend).1
        rw [hempty, utf16Length_nil] at hlength
        omega
      refine ⟨r.1, q.2, ?_, ?_, by omega⟩
      · rw [← htext, List.append_assoc, splitUnits_append hq, splitUnits_append hr]
      · rw [length_of_splitUnits hr hne]
        omega
    · exact ih hrest s' hs'

theorem addSource_exact {content : Text} {runs : List SourceQuoteRun} {s : ReconciliationSource}
    (hruns : ∀ run ∈ runs, run.Exact content) (hs : s.Exact content) :
    ∀ run ∈ addSource runs s, run.Exact content := by
  obtain ⟨a, b, hcontent, hstart, -⟩ := hs
  have hnew : SourceQuoteRun.Exact content { start := s.start.toNat, text := s.text } := by
    refine ⟨a, b, hcontent, ?_⟩
    show utf16Length a = s.start.toNat
    omega
  cases runs with
  | nil =>
    intro run hrun
    rw [addSource, List.mem_singleton] at hrun
    rw [hrun]
    exact hnew
  | cons previous rest =>
    intro run hrun
    simp only [addSource] at hrun
    split at hrun
    next hadjacent =>
      rcases List.mem_cons.1 hrun with rfl | hrun
      · obtain ⟨c, d, hcontent', hstart'⟩ := hruns previous List.mem_cons_self
        have hlength : utf16Length a = utf16Length (c ++ previous.text) := by
          rw [utf16Length_append, hstart']
          omega
        rw [hcontent, List.append_assoc] at hcontent'
        have hinj := append_inj_units hcontent' hlength
        refine ⟨c, b, ?_, hstart'⟩
        rw [hcontent, hinj.1, ← List.append_assoc c]
      · exact hruns run (List.mem_cons_of_mem _ hrun)
    next =>
      rcases List.mem_cons.1 hrun with rfl | hrun
      · exact hnew
      · exact hruns run hrun

theorem sourceRuns_exact {content : Text} {ordered : List ReconciliationSource}
    (h : ∀ s ∈ ordered, s.Exact content) : ∀ run ∈ sourceRuns ordered, run.Exact content := by
  have hfold : ∀ (runs : List SourceQuoteRun), (∀ run ∈ runs, run.Exact content) →
      ∀ run ∈ ordered.foldl addSource runs, run.Exact content := by
    induction ordered with
    | nil => exact fun runs hruns => hruns
    | cons s rest ih =>
      intro runs hruns
      exact ih (fun s' hs' => h s' (List.mem_cons_of_mem _ hs')) _ (addSource_exact hruns (h s List.mem_cons_self))
  intro run hrun
  exact hfold [] (fun run hrun => by cases hrun) run (List.mem_reverse.1 hrun)

/-- **A canonical quote is a slice of the content**, when that is given or the sources are exact. -/
theorem canonicalSourceQuote_infix {content : Text} {sourceContent : Option Text}
    {sources : List ReconciliationSource} {quote found : Text} {limit : Nat}
    (hcontent : sourceContent = some content ∨ sourceContent = none ∧ ∀ s ∈ sources, s.Exact content)
    (h : canonicalSourceQuote unicode sources quote limit sourceContent = some found) : found <:+: content := by
  simp only [canonicalSourceQuote] at h
  split at h
  next => cases h
  next =>
    split at h
    next => cases h
    next hwell =>
      rw [Bool.not_eq_false] at hwell
      obtain ⟨raw, hraw, rfl⟩ := Option.map_eq_some_iff.1 h
      obtain ⟨run, hrun, hinfix⟩ := resolveRawSourceQuote_infix hraw
      have hexact : ∀ s ∈ sources.insertionSort (·.start ≤ ·.start), s.Exact content := by
        rcases hcontent with rfl | ⟨-, hexact⟩
        · exact exact_of_wellAddressed hwell
        · exact fun s hs => hexact s ((List.mem_insertionSort _).1 hs)
      obtain ⟨a, b, rfl, -⟩ := sourceRuns_exact hexact run hrun
      exact hinfix.trans ⟨a, b, rfl⟩

end Zenod.Engine
