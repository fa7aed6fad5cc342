/-
Quotes resolved to the source (`engine/sourceQuote.ts`) on code units, with the
offsets the code computes: a quote may begin or end in the middle of a pair.

`resolved_of_some`: what is found is a slice of one run with the quote's own
characters, chosen among all places where the quote stands.
`resolveRawSourceQuote_exact`: one place alone is found.
-/
import Zenod.Lib.Utf16

namespace Zenod.Passages

open Zenod.Units

/-! ## The code -/

structure SourceQuoteRun where
  start : Int
  text : Units

structure RawSourceQuote where
  start : Int
  stop : Int
  quote : Units
deriving DecidableEq

structure QuoteOptions where
  maxRawChars : Int
  exactOccurrence : Option Int := none
  uniqueExact : Bool := false
  overlap : Option (Int × Int) := none

/-- A unit of the normalized text with the raw extent it stands for. -/
structure MappedUnit where
  unit : UInt16
  start : Nat
  stop : Nat

variable (unicode : Unicode)

/-- White space is dropped between a sentence's punctuation and a letter, unless a number comes before:
`before` is what stands before it, last unit first, and `after` what stands behind it. -/
def isDropped (before after : Units) : Bool :=
  before.head?.any (fun u => u == 0x2e || u == 0x21 || u == 0x3f) &&
    !(before[1]?.any fun u => (charOf u).any unicode.isNumber) && (firstChar after).any unicode.isLetter

/-- The map from an offset on. -/
def whitespaceMapFrom (before : Units) (offset : Nat) : Units → List MappedUnit
  | [] => []
  | u :: t =>
    if isSpace u then
      let space := t.takeWhile isSpace
      let after := t.dropWhile isSpace
      let later := whitespaceMapFrom (space.reverse ++ u :: before) (offset + 1 + space.length) after
      if isDropped unicode before after then later
      else { unit := 0x20, start := offset, stop := offset + 1 + space.length } :: later
    else { unit := u, start := offset, stop := offset + 1 } :: whitespaceMapFrom (u :: before) (offset + 1) t
termination_by t => t.length
decreasing_by
  · have hle := (List.dropWhile_suffix isSpace (l := t)).length_le
    simp only [List.length_cons]
    omega
  · simp

def whitespaceMap (t : Units) : List MappedUnit := whitespaceMapFrom unicode [] 0 t

def normalized (t : Units) : Units := (whitespaceMap unicode t).map (·.unit)

def exactMatches (runs : List SourceQuoteRun) (quote : Units) : List RawSourceQuote :=
  runs.flatMap fun run => (occurrences quote run.text).map fun (at_ : Nat) =>
    { start := run.start + at_, stop := run.start + at_ + quote.length, quote }

/-- Where a normalized text stands in a run, at an index of the run's map. -/
def mappedMatch (run : SourceQuoteRun) (mapped : List MappedUnit) (length at_ : Nat) : RawSourceQuote :=
  let start : Nat := (mapped[at_]?.map (·.start)).getD 0
  let stop : Nat := (mapped[at_ + length - 1]?.map (·.stop)).getD 0
  { start := run.start + start, stop := run.start + stop, quote := slice run.text start stop }

def fallbackMatches (runs : List SourceQuoteRun) (quote : Units) : List RawSourceQuote :=
  let needle := normalized unicode quote
  runs.flatMap fun run =>
    (occurrences needle (normalized unicode run.text)).map (mappedMatch run (whitespaceMap unicode run.text) needle.length)

def QuoteOptions.overlaps (options : QuoteOptions) (found : RawSourceQuote) : Bool :=
  options.overlap.all fun extent => found.start < extent.2 && extent.1 < found.stop

/-- The verbatim places the options allow. -/
def allowedMatches (runs : List SourceQuoteRun) (quote : Units) (options : QuoteOptions) : List RawSourceQuote :=
  (exactMatches runs quote).filter options.overlaps

/-- `exact[occurrence] ?? null`. -/
def requested (found : List RawSourceQuote) (occurrence : Option Int) : Option RawSourceQuote :=
  if occurrence.getD 0 < 0 then none else found[(occurrence.getD 0).toNat]?

def resolveRawSourceQuote (runs : List SourceQuoteRun) (quote : Units) (options : QuoteOptions) : Option RawSourceQuote :=
  if trim quote = [] ∨ options.maxRawChars < quote.length then none
  else
    match allowedMatches runs quote options with
    | [found] => some found
    | first :: second :: rest =>
      if options.uniqueExact then none else requested (first :: second :: rest) options.exactOccurrence
    | [] =>
      match fallbackMatches unicode runs quote with
      | [found] => if options.overlaps found ∧ (found.quote.length : Int) ≤ options.maxRawChars then some found else none
      | _ => none

/-! ## What a map stands for -/

/-- The units that are not white space. -/
def solid (t : Units) : Units := t.filter fun u => !isSpace u

@[simp] theorem solid_append (a b : Units) : solid (a ++ b) = solid a ++ solid b := List.filter_append ..

theorem solid_eq_nil {t : Units} (h : ∀ u ∈ t, isSpace u = true) : solid t = [] :=
  List.filter_eq_nil_iff.2 fun u hu => by simp [h u hu]

/-- A map of a text from an offset on: each piece of the text is left out, if it is white space, or stands for a unit. -/
inductive Maps : Nat → Units → List MappedUnit → Prop
  | nil (offset : Nat) : Maps offset [] []
  | drop {offset : Nat} {piece t : Units} {ms : List MappedUnit} : solid piece = [] → Maps (offset + piece.length) t ms →
      Maps offset (piece ++ t) ms
  | keep {offset : Nat} {u : UInt16} {piece t : Units} {ms : List MappedUnit} : solid piece = solid [u] →
      Maps (offset + piece.length) t ms → Maps offset (piece ++ t) (⟨u, offset, offset + piece.length⟩ :: ms)

variable {unicode}

theorem maps_whitespaceMapFrom (before : Units) (offset : Nat) (t : Units) :
    Maps offset t (whitespaceMapFrom unicode before offset t) := by
  induction before, offset, t using whitespaceMapFrom.induct unicode with
  | case1 before offset =>
    rw [whitespaceMapFrom]
    exact .nil offset
  | case2 before offset u t hspace space after hdropped ih =>
    rw [whitespaceMapFrom, if_pos hspace, if_pos hdropped]
    have hpiece : solid (u :: space) = [] := solid_eq_nil fun v hv => by
      rcases List.mem_cons.1 hv with rfl | hv
      · exact hspace
      · exact List.mem_takeWhile_imp hv
    have hlength : offset + 1 + space.length = offset + (u :: space).length := by
      rw [List.length_cons, Nat.add_comm space.length 1, Nat.add_assoc]
    rw [hlength] at ih
    have hmap := Maps.drop hpiece ih
    rwa [List.cons_append, List.takeWhile_append_dropWhile, ← hlength] at hmap
  | case3 before offset u t hspace space after hkept ih =>
    rw [whitespaceMapFrom, if_pos hspace, if_neg hkept]
    have hlength : offset + 1 + space.length = offset + (u :: space).length := by
      rw [List.length_cons, Nat.add_comm space.length 1, Nat.add_assoc]
    have hpiece : solid (u :: space) = solid [0x20] := by
      rw [solid_eq_nil fun v hv => ?_]
      · decide
      · rcases List.mem_cons.1 hv with rfl | hv
        · exact hspace
        · exact List.mem_takeWhile_imp hv
    rw [hlength] at ih
    have hmap := Maps.keep hpiece ih
    rw [List.cons_append, List.takeWhile_append_dropWhile, ← hlength] at hmap
    exact hmap
  | case4 before offset u t hspace ih =>
    rw [whitespaceMapFrom, if_neg hspace]
    have hone : solid [u] = solid [u] := rfl
    exact Maps.keep hone ih

/-- **No character is lost or made up.** -/
theorem Maps.solid_units {offset : Nat} {t : Units} {ms : List MappedUnit} (h : Maps offset t ms) :
    solid (ms.map (·.unit)) = solid t := by
  induction h with
  | nil => rfl
  | drop hpiece _ ih => rw [solid_append, hpiece, ih, List.nil_append]
  | @keep offset u piece t ms hpiece _ ih =>
    rw [List.map_cons, ← List.singleton_append, solid_append, solid_append, hpiece, ih]

/-- A part of the map is the map of a part. -/
theorem Maps.split {offset : Nat} {t : Units} {first second : List MappedUnit} (h : Maps offset t (first ++ second)) :
    ∃ a b, t = a ++ b ∧ Maps offset a first ∧ Maps (offset + a.length) b second := by
  generalize hms : first ++ second = ms at h
  induction h generalizing first with
  | nil offset =>
    obtain ⟨rfl, rfl⟩ := List.append_eq_nil_iff.1 hms
    exact ⟨[], [], rfl, .nil _, .nil _⟩
  | @drop offset piece t ms hpiece _ ih =>
    obtain ⟨a, b, rfl, ha, hb⟩ := ih hms
    refine ⟨piece ++ a, b, (List.append_assoc ..).symm, .drop hpiece ha, ?_⟩
    rwa [List.length_append, ← Nat.add_assoc]
  | @keep offset u piece t ms hpiece hrest ih =>
    cases first with
    | nil =>
      rw [List.nil_append] at hms
      exact ⟨[], piece ++ t, rfl, .nil _, hms ▸ .keep hpiece hrest⟩
    | cons m first =>
      obtain ⟨rfl, htail⟩ := List.cons.inj hms
      obtain ⟨a, b, rfl, ha, hb⟩ := ih htail
      refine ⟨piece ++ a, b, (List.append_assoc ..).symm, .keep hpiece ha, ?_⟩
      rwa [List.length_append, ← Nat.add_assoc]

/-- Before the first unit of a map, white space only is left out. -/
theorem Maps.head {offset : Nat} {t : Units} {m : MappedUnit} {ms : List MappedUnit} (h : Maps offset t (m :: ms)) :
    ∃ a piece b, t = a ++ (piece ++ b) ∧ solid a = [] ∧ solid piece = solid [m.unit] ∧ offset + a.length = m.start ∧
      m.start + piece.length = m.stop ∧ Maps m.stop b ms := by
  generalize hms : m :: ms = all at h
  induction h with
  | nil => cases hms
  | @drop offset piece t all hpiece _ ih =>
    obtain ⟨a, p, b, rfl, ha, hp, hstart, hstop, hb⟩ := ih hms
    refine ⟨piece ++ a, p, b, (List.append_assoc ..).symm, by rw [solid_append, hpiece, ha]; rfl, hp, ?_, hstop, hb⟩
    rwa [List.length_append, ← Nat.add_assoc]
  | @keep offset u piece t all hpiece hrest ih =>
    obtain ⟨rfl, rfl⟩ := List.cons.inj hms
    exact ⟨[], piece, t, rfl, rfl, hpiece, rfl, rfl, hrest⟩

/-- And behind the last one. -/
theorem Maps.last {offset : Nat} {t : Units} {n : MappedUnit} {ms : List MappedUnit} (h : Maps offset t (ms ++ [n])) :
    ∃ a b, t = a ++ b ∧ offset + a.length = n.stop ∧ solid b = [] := by
  obtain ⟨a, rest, rfl, -, hb⟩ := h.split
  obtain ⟨skipped, piece, b, rfl, -, -, hstart, hstop, hnone⟩ := hb.head
  refine ⟨a ++ (skipped ++ piece), b, by simp only [List.append_assoc], ?_, hnone.solid_units.symm⟩
  simp only [List.length_append]
  omega

/-- **A part of the map stands for the slice between its ends.** -/
theorem Maps.part {offset : Nat} {t : Units} {first middle rest : List MappedUnit} (h : Maps offset t (first ++ (middle ++ rest)))
    (hne : middle ≠ []) :
    ∃ a b c, t = a ++ (b ++ c) ∧ offset + a.length = (middle.head hne).start ∧
      offset + a.length + b.length = (middle.getLast hne).stop ∧ solid b = solid (middle.map (·.unit)) := by
  obtain ⟨a, t', rfl, -, h'⟩ := h.split
  obtain ⟨b, c, rfl, hb, -⟩ := h'.split
  obtain ⟨⟨unit, start, stop⟩, ms, rfl⟩ := List.exists_cons_of_ne_nil hne
  obtain ⟨skipped, piece, later, rfl, -, hpiece, hstart, hstop, hlater⟩ := hb.head
  simp only at hpiece hstart hstop hlater
  subst hstop
  have htight := Maps.keep hpiece hlater
  have hlast := List.dropLast_concat_getLast hne
  rw [← hlast] at htight
  obtain ⟨inner, outer, hinner, hend, houter⟩ := htight.last
  refine ⟨a ++ skipped, inner, outer ++ c, ?_, ?_, ?_, ?_⟩
  · rw [hinner]
    simp only [List.append_assoc]
  · simp only [List.length_append, List.head_cons]
    omega
  · simp only [List.length_append]
    omega
  · have hsolid := htight.solid_units
    rw [hinner, solid_append, houter, List.append_nil, hlast] at hsolid
    exact hsolid.symm

theorem solid_normalized (t : Units) : solid (normalized unicode t) = solid t := (maps_whitespaceMapFrom [] 0 t).solid_units

/-! ## What is found -/

/-- What is found lies inside one run, as the run's text there. -/
def InsideRun (runs : List SourceQuoteRun) (found : RawSourceQuote) : Prop :=
  ∃ run ∈ runs, ∃ i j : Nat, i ≤ j ∧ j ≤ run.text.length ∧ found.start = run.start + i ∧ found.stop = run.start + j ∧
    found.quote = slice run.text i j

variable {runs : List SourceQuoteRun} {quote : Units} {options : QuoteOptions} {found : RawSourceQuote}

/-- The verbatim places of a quote. -/
theorem mem_exactMatches : found ∈ exactMatches runs quote ↔ ∃ run ∈ runs, ∃ a b, run.text = a ++ (quote ++ b) ∧
    found = ⟨run.start + a.length, run.start + a.length + quote.length, quote⟩ := by
  unfold exactMatches
  simp only [List.mem_flatMap, List.mem_map, mem_occurrences]
  constructor
  · rintro ⟨run, hrun, k, ⟨a, b, htext, rfl⟩, rfl⟩
    exact ⟨run, hrun, a, b, htext, rfl⟩
  · rintro ⟨run, hrun, a, b, htext, rfl⟩
    exact ⟨run, hrun, a.length, ⟨a, b, htext, rfl⟩, rfl⟩

theorem insideRun_of_exact (h : found ∈ exactMatches runs quote) : InsideRun runs found ∧ found.quote = quote := by
  obtain ⟨run, hrun, a, b, htext, rfl⟩ := mem_exactMatches.1 h
  refine ⟨⟨run, hrun, a.length, a.length + quote.length, Nat.le_add_right _ _, ?_, rfl, ?_, ?_⟩, rfl⟩
  · rw [htext]
    simp
  · simp only
    omega
  · rw [htext, slice_parts]

theorem solid_ne_nil (h : trim quote ≠ []) : solid quote ≠ [] := by
  intro hnil
  refine h (trim_eq_nil.2 fun u hu => ?_)
  have hnot := List.filter_eq_nil_iff.1 hnil u hu
  simpa using hnot

theorem insideRun_of_fallback (hquote : trim quote ≠ []) (h : found ∈ fallbackMatches unicode runs quote) :
    InsideRun runs found ∧ solid found.quote = solid quote := by
  obtain ⟨run, hrun, hfound⟩ := List.mem_flatMap.1 h
  obtain ⟨k, hk, rfl⟩ := List.mem_map.1 hfound
  obtain ⟨before, after, hunits, rfl⟩ := mem_occurrences.1 hk
  obtain ⟨first, rest', hms, hfirst, hrest'⟩ := List.map_eq_append_iff.1 hunits
  obtain ⟨middle, rest, rfl, hmiddle, hrest⟩ := List.map_eq_append_iff.1 hrest'
  have hne : middle ≠ [] := by
    rintro rfl
    have hsolid := @solid_normalized unicode quote
    rw [← hmiddle] at hsolid
    exact solid_ne_nil hquote hsolid.symm
  have hmap := @maps_whitespaceMapFrom unicode [] 0 run.text
  rw [whitespaceMap] at hms
  rw [hms] at hmap
  obtain ⟨a, b, c, htext, hstart, hstop, hsolid⟩ := hmap.part hne
  rw [Nat.zero_add] at hstart hstop
  have hfirstAt : (whitespaceMap unicode run.text)[before.length]? = some (middle.head hne) := by
    rw [whitespaceMap, hms, ← hfirst, List.length_map, List.getElem?_append_right (Nat.le_refl _), Nat.sub_self,
      ← List.head?_eq_getElem?, List.head?_append_of_ne_nil _ hne, List.head?_eq_some_head hne]
  have hpos := List.length_pos_iff.2 hne
  have hlastAt : (whitespaceMap unicode run.text)[before.length + (normalized unicode quote).length - 1]? =
      some (middle.getLast hne) := by
    have hlength : (normalized unicode quote).length = middle.length := by rw [← hmiddle, List.length_map]
    rw [whitespaceMap, hms, ← hfirst, List.length_map, hlength, List.getElem?_append_right (by omega),
      List.getElem?_append_left (by omega), show first.length + middle.length - 1 - first.length = middle.length - 1 by omega,
      ← List.getLast?_eq_getElem?, List.getLast?_eq_some_getLast hne]
  unfold mappedMatch
  simp only [hfirstAt, hlastAt, Option.map_some, Option.getD_some, ← hstart, ← hstop]
  have hslice : slice run.text a.length (a.length + b.length) = b := by rw [htext, slice_parts]
  refine ⟨⟨run, hrun, a.length, a.length + b.length, Nat.le_add_right _ _, ?_, rfl, rfl, rfl⟩, ?_⟩
  · rw [htext]
    simp
  · rw [hslice, hsolid, hmiddle, solid_normalized]

/-- What a quote resolves to. -/
structure Resolved (unicode : Unicode) (runs : List SourceQuoteRun) (quote : Units) (options : QuoteOptions)
    (found : RawSourceQuote) : Prop where
  inside : InsideRun runs found
  solid : solid found.quote = solid quote
  size : (found.quote.length : Int) ≤ options.maxRawChars
  overlaps : ∀ extent, options.overlap = some extent → found.start < extent.2 ∧ extent.1 < found.stop
  /-- Of several verbatim places the requested one counts, where one may be requested. -/
  verbatim : allowedMatches runs quote options ≠ [] → found ∈ allowedMatches runs quote options ∧
    (allowedMatches runs quote options = [found] ∨
      (options.uniqueExact = false ∧ requested (allowedMatches runs quote options) options.exactOccurrence = some found))
  formatted : allowedMatches runs quote options = [] → fallbackMatches unicode runs quote = [found]

theorem overlaps_iff : options.overlaps found = true ↔
    ∀ extent, options.overlap = some extent → found.start < extent.2 ∧ extent.1 < found.stop := by
  unfold QuoteOptions.overlaps
  cases options.overlap with
  | none => simp
  | some extent => simp [Bool.and_eq_true]

theorem resolved_of_verbatim (hsize : ¬options.maxRawChars < quote.length) (hfound : found ∈ allowedMatches runs quote options)
    (hchoice : allowedMatches runs quote options = [found] ∨
      (options.uniqueExact = false ∧ requested (allowedMatches runs quote options) options.exactOccurrence = some found)) :
    Resolved unicode runs quote options found := by
  obtain ⟨hexact, hoverlaps⟩ := List.mem_filter.1 hfound
  obtain ⟨hinside, hquote⟩ := insideRun_of_exact hexact
  refine ⟨hinside, by rw [hquote], by rw [hquote]; omega, overlaps_iff.1 hoverlaps, fun _ => ⟨hfound, hchoice⟩, fun hnone => ?_⟩
  rw [hnone] at hfound
  cases hfound

theorem mem_of_requested {all : List RawSourceQuote} {occurrence : Option Int} (h : requested all occurrence = some found) :
    found ∈ all := by
  unfold requested at h
  split at h
  next => cases h
  next => exact List.mem_of_getElem? h

/-- **What is found is the source's own text.** -/
theorem resolved_of_some (h : resolveRawSourceQuote unicode runs quote options = some found) :
    Resolved unicode runs quote options found := by
  unfold resolveRawSourceQuote at h
  split at h
  next => cases h
  next hguard =>
    obtain ⟨hquote, hsize⟩ := not_or.1 hguard
    split at h
    next only honly =>
      obtain rfl := Option.some.inj h
      exact resolved_of_verbatim hsize (honly ▸ List.mem_singleton_self _) (.inl honly)
    next first second rest hmany =>
      split at h
      next => cases h
      next hunique =>
        rw [← hmany] at h
        exact resolved_of_verbatim hsize (mem_of_requested h) (.inr ⟨Bool.eq_false_iff.2 hunique, h⟩)
    next hnone =>
      split at h
      next only honly =>
        split at h
        next hok =>
          obtain rfl := Option.some.inj h
          obtain ⟨hinside, hsolid⟩ := insideRun_of_fallback hquote (honly ▸ List.mem_singleton_self only)
          exact ⟨hinside, hsolid, hok.2, overlaps_iff.1 hok.1, fun hsome => absurd hnone hsome, fun _ => honly⟩
        next => cases h
      next => cases h

/-- **Quotes resolve to the source's own text**, and a quote that stands verbatim in one place alone always resolves,
unless it is blank. -/
theorem resolveRawSourceQuote_exact (unicode : Unicode) (runs : List SourceQuoteRun) (quote : Units) (options : QuoteOptions)
    (found : RawSourceQuote) :
    (resolveRawSourceQuote unicode runs quote options = some found → Resolved unicode runs quote options found) ∧
    (trim quote ≠ [] → (quote.length : Int) ≤ options.maxRawChars → allowedMatches runs quote options = [found] →
      resolveRawSourceQuote unicode runs quote options = some found) := by
  refine ⟨resolved_of_some, fun hquote hsize honly => ?_⟩
  have hguard : ¬(trim quote = [] ∨ options.maxRawChars < quote.length) := not_or.2 ⟨hquote, Int.not_lt.2 hsize⟩
  rw [resolveRawSourceQuote, if_neg hguard, honly]

theorem word_exact : Resolved .ascii [⟨5, ofText "an old oak".toList⟩] (ofText "old".toList) ⟨20, none, true, none⟩
      ⟨8, 11, ofText "old".toList⟩ ∧
    resolveRawSourceQuote .ascii [⟨5, ofText "an old oak".toList⟩] (ofText "old".toList) ⟨20, none, true, none⟩ =
      some ⟨8, 11, ofText "old".toList⟩ := by
  have hfound := (resolveRawSourceQuote_exact .ascii [⟨5, ofText "an old oak".toList⟩] (ofText "old".toList)
    ⟨20, none, true, none⟩ ⟨8, 11, ofText "old".toList⟩).2 (by decide) (by decide) (by decide)
  exact ⟨(resolveRawSourceQuote_exact _ _ _ _ _).1 hfound, hfound⟩

/-- A blank quote resolves to nothing, though it stands in one place. -/
theorem blank_unresolved : allowedMatches [⟨0, ofText "a b".toList⟩] (ofText " ".toList) ⟨3, none, false, none⟩ =
      [⟨1, 2, ofText " ".toList⟩] ∧
    resolveRawSourceQuote .ascii [⟨0, ofText "a b".toList⟩] (ofText " ".toList) ⟨3, none, false, none⟩ = none :=
  ⟨by decide, by rw [resolveRawSourceQuote, if_pos (.inl (by decide))]⟩

end Zenod.Passages
