/-
Long sources in pieces (`engine/sourcePassages.ts`): a source is cut into
passages, and the passages are gathered into the windows that a classifier
reads one at a time, each with the passage before it and the one behind it.

`segments_spec`: the segments put together are the source, none is empty or too
long, and no surrogate pair is cut.
-/
import Mathlib.Data.List.Sort
import Zenod.Lib.Extent
import Zenod.Lib.Utf16

namespace Zenod.Passages

open Zenod.Units

/-! ## The code -/

def longMemorySegmentChars : Nat := 12000
def passageChars : Nat := 800

/-- Where the segment ends that starts at an offset: at the last blank line, sentence or word of the second half of what
fits, or where no more fits, but in front of a surrogate pair. -/
def segmentEnd (content : Units) (maxChars offset : Nat) : Nat :=
  let stop := min content.length (offset + maxChars)
  if stop < content.length then
    let window := slice content offset stop
    let boundary := max (max (lastIndexOf [0x0a, 0x0a] window) (lastIndexOf [0x2e, 0x20] window)) (lastIndexOf [0x20] window)
    let stop := if (maxChars : Int) ≤ 2 * boundary then offset + boundary.toNat + 1 else stop
    if content[stop]?.any isLow then stop - 1 else stop
  else stop

variable {content : Units} {maxChars offset : Nat}

theorem lastIndexOf_lt {needle t : Units} (hneedle : needle ≠ []) : lastIndexOf needle t < t.length ∨ lastIndexOf needle t = -1 := by
  unfold lastIndexOf
  cases hlast : (occurrences needle t).getLast? with
  | none => exact .inr rfl
  | some k =>
    obtain ⟨a, b, rfl, rfl⟩ := mem_occurrences.1 (List.mem_of_getLast? hlast)
    have hpos := List.length_pos_iff.2 hneedle
    left
    simp only [Option.map_some, Option.getD_some, Int.ofNat_eq_natCast, List.length_append]
    omega

/-- **A segment takes something**, and no more than fits. -/
theorem segmentEnd_bounds (hmax : 2 ≤ maxChars) (hoffset : offset < content.length) :
    offset < segmentEnd content maxChars offset ∧ segmentEnd content maxChars offset ≤ content.length ∧
      segmentEnd content maxChars offset ≤ offset + maxChars := by
  unfold segmentEnd
  simp only
  split
  next hmore =>
    have hstop : min content.length (offset + maxChars) = offset + maxChars := by omega
    have hlength : (slice content offset (min content.length (offset + maxChars))).length = maxChars := by
      rw [length_slice (Nat.min_le_left _ _), hstop, Nat.add_sub_cancel_left]
    generalize slice content offset (min content.length (offset + maxChars)) = window at hlength ⊢
    have hblank := @lastIndexOf_lt [0x0a, 0x0a] window (List.cons_ne_nil _ _)
    have hsentence := @lastIndexOf_lt [0x2e, 0x20] window (List.cons_ne_nil _ _)
    have hword := @lastIndexOf_lt [0x20] window (List.cons_ne_nil _ _)
    split <;> split <;> omega
  next => omega

/-- The segments from an offset on. The loop ends as every segment takes something. -/
def segmentsFrom (content : Units) (maxChars : Nat) (hmax : 2 ≤ maxChars) (offset : Nat) : List Units :=
  if _h : offset < content.length then
    slice content offset (segmentEnd content maxChars offset) ::
      segmentsFrom content maxChars hmax (segmentEnd content maxChars offset)
  else []
termination_by content.length - offset
decreasing_by
  have hbounds := segmentEnd_bounds hmax _h
  omega

def segmentLongMemoryContent (content : Units) (maxChars : Nat) (hmax : 2 ≤ maxChars) : List Units :=
  if content = [] ∨ content.length ≤ maxChars then [content] else segmentsFrom content maxChars hmax 0

structure Range where
  start : Int
  stop : Int
deriving DecidableEq

/-- The low half of a pair stands at the offset. -/
def lowAt (content : Units) (offset : Int) : Bool := content[offset.toNat]?.any isLow

/-- None where the code throws `invalid_semantic_range`. -/
def semanticBounds (content : Units) (semanticRange : Option Range) : Option Range :=
  let range := semanticRange.getD ⟨0, content.length⟩
  if Js.isSafeInteger range.start = false ∨ Js.isSafeInteger range.stop = false ∨ range.start < 0 ∨
      range.stop < range.start ∨ content.length < range.stop ∨ lowAt content range.start ∨ lowAt content range.stop then none
  else some range

structure SourcePassage where
  id : Units
  start : Int
  stop : Int
  text : Units
deriving DecidableEq

structure SourceWindow where
  content : Units
  range : Range
  passages : List SourcePassage
  context : Units

/-- `p-${digest}-${start}-${end}`, the offsets to the base 36. -/
def passageId (digest : Units) (start stop : Nat) : Units :=
  [0x70, 0x2d] ++ digest ++ [0x2d] ++ base36 start ++ [0x2d] ++ base36 stop

def passagesFrom (digest : Units) : Nat → List Units → List SourcePassage
  | _, [] => []
  | offset, text :: texts =>
    { id := passageId digest offset (offset + text.length), start := offset, stop := (offset + text.length : Nat), text } ::
      passagesFrom digest (offset + text.length) texts

def startOf (group : List SourcePassage) : Int := (group.head?.map (·.start)).getD 0
def stopOf (group : List SourcePassage) : Int := (group.getLast?.map (·.stop)).getD 0

/-- A passage joins the last group unless the group would become too long. -/
def addPassage (groups : List (List SourcePassage)) (passage : SourcePassage) : List (List SourcePassage) :=
  match groups.getLast? with
  | none => groups ++ [[passage]]
  | some last =>
    if longMemorySegmentChars < passage.stop - startOf last then groups ++ [[passage]]
    else groups.dropLast ++ [last ++ [passage]]

/-- The passages next to a group: the last one of the group before and the first one of the group behind. -/
def before (groups : List (List SourcePassage)) (i : Nat) : Option SourcePassage :=
  if i = 0 then none else groups[i - 1]?.bind (·.getLast?)

def behind (groups : List (List SourcePassage)) (i : Nat) : Option SourcePassage := groups[i + 1]?.bind (·.head?)

def windowOf (content : Units) (groups : List (List SourcePassage)) (group : List SourcePassage) (i : Nat) : SourceWindow :=
  let neighbors := (before groups i).toList ++ (behind groups i).toList
  { content := slice content (startOf group).toNat (stopOf group).toNat
    range := ⟨startOf group, stopOf group⟩
    passages := (group ++ neighbors).insertionSort (·.start ≤ ·.start)
    context := List.intercalate [0x0a] (neighbors.map (·.text)) }

/-- The windows of a source; `digest` gives the first sixteen digits of its SHA-256. -/
def sourceWindows (digest : Units → Units) (content : Units) (semanticRange : Option Range) : Option (List SourceWindow) :=
  (semanticBounds content semanticRange).map fun bounds =>
    let texts := segmentLongMemoryContent (slice content bounds.start.toNat bounds.stop.toNat) passageChars (by decide)
    let groups := (passagesFrom (digest content) bounds.start.toNat texts).foldl addPassage []
    groups.zipIdx.map fun entry => windowOf content groups entry.1 entry.2

/-! ## Segments -/

theorem flatten_segmentsFrom (hmax : 2 ≤ maxChars) (offset : Nat) :
    (segmentsFrom content maxChars hmax offset).flatten = content.drop offset := by
  induction offset using segmentsFrom.induct content maxChars hmax with
  | case1 offset hoffset ih =>
    obtain ⟨hlt, hle, -⟩ := segmentEnd_bounds hmax hoffset
    rw [segmentsFrom, dif_pos hoffset, List.flatten_cons, ih]
    have hparts := split_slice (Nat.le_of_lt hlt) hle
    have htake := List.take_append_drop offset content
    rw [← List.append_cancel_left_eq (content.take offset), htake]
    exact hparts.1.symm
  | case2 offset hoffset =>
    rw [segmentsFrom, dif_neg hoffset, List.drop_eq_nil_of_le (Nat.le_of_not_lt hoffset)]
    rfl

theorem segment_size {s : Units} (hmax : 2 ≤ maxChars) (hs : s ∈ segmentsFrom content maxChars hmax offset) :
    s ≠ [] ∧ s.length ≤ maxChars := by
  induction offset using segmentsFrom.induct content maxChars hmax with
  | case1 offset hoffset ih =>
    obtain ⟨hlt, hle, hmost⟩ := segmentEnd_bounds hmax hoffset
    rw [segmentsFrom, dif_pos hoffset] at hs
    rcases List.mem_cons.1 hs with rfl | hs
    · have hlength := length_slice (i := offset) hle
      exact ⟨List.length_pos_iff.1 (by omega), by omega⟩
    · exact ih hs
  | case2 offset hoffset =>
    rw [segmentsFrom, dif_neg hoffset] at hs
    cases hs

/-- No pair is open where a segment of well-formed text ends. -/
theorem segmentEnd_cut (hmax : 2 ≤ maxChars) (hoffset : offset < content.length) (hcontent : WellFormed content) :
    (content.drop (segmentEnd content maxChars offset)).head?.any isLow = false := by
  have hbounds := segmentEnd_bounds hmax hoffset
  have hhead : ∀ p, (content.drop p).head? = content[p]? := fun p => by rw [List.head?_drop]
  rw [hhead]
  unfold segmentEnd at hbounds ⊢
  simp only at hbounds ⊢
  split at hbounds
  next hmore =>
    rw [if_pos hmore]
    generalize (if (maxChars : Int) ≤ 2 * _ then offset + _ + 1 else min content.length (offset + maxChars)) = p at hbounds ⊢
    split at hbounds
    next hlow =>
      rw [if_pos hlow]
      -- In front of the low half stands the high one.
      rw [← List.take_append_drop p content] at hcontent
      have hhigh := hcontent.before_low (by rw [hhead]; exact hlow)
      have hp : 0 < p := by omega
      have hlast : (content.take p).getLast? = content[p - 1]? := by
        rw [List.getLast?_eq_getElem?, List.length_take]
        rcases Nat.lt_or_ge content.length p with hlong | hshort
        · have hnone : content[p]? = none := List.getElem?_eq_none (by omega)
          rw [hnone] at hlow
          cases hlow
        · rw [Nat.min_eq_left hshort, List.getElem?_take_of_lt (by omega)]
      rw [hlast] at hhigh
      cases hunit : content[p - 1]? with
      | none => rfl
      | some u =>
        rw [hunit] at hhigh
        exact isLow_of_isHigh hhigh
    next hlow =>
      rw [if_neg hlow]
      exact Bool.eq_false_iff.2 hlow
  next hend =>
    rw [if_neg hend, show min content.length (offset + maxChars) = content.length by omega, List.getElem?_eq_none (Nat.le_refl _)]
    rfl

theorem segment_wellFormed {s : Units} (hmax : 2 ≤ maxChars) (hcontent : WellFormed content)
    (hoffset : (content.drop offset).head?.any isLow = false) (hs : s ∈ segmentsFrom content maxChars hmax offset) :
    WellFormed s := by
  induction offset using segmentsFrom.induct content maxChars hmax with
  | case1 offset hlt ih =>
    obtain ⟨hprogress, hle, -⟩ := segmentEnd_bounds hmax hlt
    have hcut := segmentEnd_cut hmax hlt hcontent
    rw [segmentsFrom, dif_pos hlt] at hs
    rcases List.mem_cons.1 hs with rfl | hs
    · obtain ⟨hparts, -, -⟩ := split_slice (Nat.le_of_lt hprogress) hle
      rw [hparts] at hcontent
      have hrest : slice content offset (segmentEnd content maxChars offset) ++
          content.drop (segmentEnd content maxChars offset) = content.drop offset := by
        rw [← List.append_cancel_left_eq (content.take offset), List.take_append_drop]
        exact hparts.symm
      exact ((hcontent.cut (by rw [hrest]; exact hoffset)).2.cut hcut).1
    · exact ih hcut hs
  | case2 offset hlt =>
    rw [segmentsFrom, dif_neg hlt] at hs
    cases hs

/-- What segments of a source are. -/
structure Segments (content : Units) (maxChars : Nat) (segments : List Units) : Prop where
  flatten : segments.flatten = content
  nonempty : ∀ s ∈ segments, s ≠ []
  size : ∀ s ∈ segments, s.length ≤ maxChars
  wellFormed : WellFormed content → ∀ s ∈ segments, WellFormed s

theorem segments_spec (hcontent : content ≠ []) (hmax : 2 ≤ maxChars) :
    Segments content maxChars (segmentLongMemoryContent content maxChars hmax) := by
  unfold segmentLongMemoryContent
  split
  next hshort =>
    have hlength := hshort.resolve_left hcontent
    exact ⟨by simp, by simpa using hcontent, by simpa using hlength, by simp⟩
  next =>
    refine ⟨flatten_segmentsFrom hmax 0, fun s hs => (segment_size hmax hs).1, fun s hs => (segment_size hmax hs).2,
      fun hwell s hs => segment_wellFormed hmax hwell ?_ hs⟩
    cases hfirst : content.head? with
    | none => simp [hfirst]
    | some u =>
      rw [List.drop_zero, hfirst]
      have hnot : ¬(content.head?.any isLow = true) := fun hlow => by
        have hnone := WellFormed.before_low (a := []) hwell hlow
        cases hnone
      rw [hfirst] at hnot
      exact Bool.eq_false_iff.2 hnot

end Zenod.Passages
