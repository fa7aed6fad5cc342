/-
What filing leaves over of a source (`engine/filingCoverage.ts`), once the spans
its topics resolve to (`resolveTopicSpans` of `engine/sourcePassages.ts`) and
the passages reviewed as evidence alone are taken out.

`topicSpans_source`: the spans of a topic are the source text that it quotes.
`unassignedFilingSpans_partition`: every place of the range is assigned, left
over in one span, or blank.
-/
import Mathlib.Data.List.ReduceOption
import Zenod.Passages.Quote
import Zenod.Passages.Tiling

namespace Zenod.Passages

open Zenod.Units

/-! ## The code -/

structure EvidenceAssignment where
  passageId : Units
  quote : Units
  occurrence : Int

/-- The fields of a topic that its spans are resolved from. -/
structure ClassificationTopic where
  evidenceAssignments : Option (List EvidenceAssignment) := none
  evidenceQuotes : List Units := []
  sourcePassages : Option (List SourcePassage) := none
  sourceRange : Option Range := none
  classificationFailed : Bool := false
  retryDiscovery : Bool := false

inductive ReviewStatus
  | assigned | evidenceOnly | unresolved
deriving DecidableEq

structure PassageReview where
  passageId : Units
  status : ReviewStatus

/-- A review may be null. -/
structure Classification where
  topics : Option (List ClassificationTopic) := none
  passageReviews : Option (List (Option PassageReview)) := none

structure SourceSpan where
  start : Int
  stop : Int
  passageId : Option Units := none

def SourceSpan.extent (s : SourceSpan) : Int × Int := (s.start, s.stop)

/-- `[...new Map(xs.map(x => [key(x), x])).values()]`: the last value of each key, at the place of the first. -/
def lastOfKey {α κ : Type} [DecidableEq κ] (key : α → κ) (xs : List α) : List α :=
  xs.foldl (fun kept x =>
    if kept.any (key · = key x) then kept.map fun y => if key y = key x then x else y else kept ++ [x]) []

/-- The passages that go on where one stops, and those that lead up to where one starts (last one first). -/
def goingOn (stop : Int) : List SourcePassage → List SourcePassage
  | [] => []
  | p :: rest => if stop = p.start then p :: goingOn p.stop rest else []

def leadingUp (start : Int) : List SourcePassage → List SourcePassage
  | [] => []
  | p :: rest => if p.stop = start then p :: leadingUp p.start rest else []

/-- The supplied passages without a gap around an addressed one, whose id no other has. -/
def contiguousRun (supplied : List SourcePassage) (passage : SourcePassage) : List SourcePassage :=
  let ordered := supplied.insertionSort (·.start ≤ ·.start)
  let index := ordered.findIdx (·.id == passage.id)
  (leadingUp passage.start (ordered.take index).reverse).reverse ++ passage :: goingOn passage.stop (ordered.drop (index + 1))

def byteExact (content : Units) (p : SourcePassage) : Bool :=
  Js.isSafeInteger p.start && Js.isSafeInteger p.stop && 0 ≤ p.start && p.start < p.stop && p.stop ≤ content.length &&
    slice content p.start.toNat p.stop.toNat == p.text

variable (unicode : Unicode)

/-- None where the code goes on with `invalid`. -/
def resolveAssignment (content : Units) (supplied : List SourcePassage) (assignment : EvidenceAssignment) : Option SourceSpan :=
  match supplied.filter (·.id == assignment.passageId) with
  | [passage] =>
    if trim assignment.quote = [] ∨ Js.isSafeInteger assignment.occurrence = false ∨ assignment.occurrence < 0 then none
    else
      let run := contiguousRun supplied passage
      if run.all (byteExact content) then
        let segment := slice content (startOf run).toNat (stopOf run).toNat
        (resolveRawSourceQuote unicode [{ start := startOf run, text := segment }] assignment.quote
          { maxRawChars := segment.length, exactOccurrence := some assignment.occurrence, overlap := some passage.extent }).map
            fun found => { start := found.start, stop := found.stop, passageId := some passage.id }
      else none
  | _ => none

/-- A quote without an address has to stand once in the topic's range. -/
def resolveLegacy (content : Units) (sourceRange : Option Range) (quote : Units) : Option SourceSpan :=
  let range := sourceRange.getD ⟨0, content.length⟩
  if trim quote = [] then none
  else
    match occurrences quote (sliceAt content range.start range.stop) with
    | [at_] => some { start := range.start + (at_ : Nat), stop := range.start + (at_ : Nat) + quote.length }
    | _ => none

structure TopicSpans where
  invalid : Bool
  spans : List SourceSpan
  nonOwnedContext : Bool

/-- Without `completePropositions`. -/
def resolveTopicSpans (content : Units) (topic : ClassificationTopic) : TopicSpans :=
  let assignments := topic.evidenceAssignments.getD []
  let resolved :=
    if assignments.isEmpty then topic.evidenceQuotes.map (resolveLegacy content topic.sourceRange)
    else assignments.map (resolveAssignment unicode content (topic.sourcePassages.getD []))
  let spans := resolved.reduceOption
  let invalid := resolved.isEmpty || resolved.any (·.isNone)
  let outsideOwned := topic.sourceRange.any fun range => !spans.any fun s => s.start < range.stop && range.start < s.stop
  { invalid := invalid || outsideOwned
    spans := lastOfKey SourceSpan.extent spans
    nonOwnedContext := !invalid && !spans.isEmpty && outsideOwned }

/-- The spans of the topics that count. -/
def topicExtents (content : Units) (topics : List ClassificationTopic) : List (Int × Int) :=
  topics.flatMap fun topic =>
    if topic.classificationFailed || topic.retryDiscovery then []
    else
      let resolved := resolveTopicSpans unicode content topic
      if !resolved.invalid && !resolved.nonOwnedContext then resolved.spans.map (·.extent) else []

/-- The passage of a review that stands alone and found evidence only. -/
def reviewedExtent (passages : List SourcePassage) (reviews : List (Option PassageReview)) (review : Option PassageReview) :
    Option (Int × Int) :=
  match review with
  | none => none
  | some review =>
    if review.status ≠ .evidenceOnly ∨ (reviews.filter fun other => other.any (·.passageId == review.passageId)).length ≠ 1 then none
    else (passages.find? (·.id == review.passageId)).map (·.extent)

def clamp (bounds : Range) (extent : Int × Int) : Int × Int := (max bounds.start extent.1, min bounds.stop extent.2)

def unassignedFilingSpans (digest : Units → Units) (content : Units) (classification : Classification)
    (semanticRange : Option Range) : Option (List (Int × Int)) := do
  let bounds ← semanticBounds content semanticRange
  let windows ← sourceWindows digest content semanticRange
  let passages := lastOfKey SourcePassage.id (windows.flatMap owned)
  let reviews := classification.passageReviews.getD []
  let covered := topicExtents unicode content (classification.topics.getD []) ++
    reviews.filterMap (reviewedExtent passages reviews)
  let clamped := (covered.map (clamp bounds)).filter fun extent => extent.1 < extent.2
  let ordered := (clamped ++ [(bounds.stop, bounds.stop)]).insertionSort (·.1 ≤ ·.1)
  some (gaps (fun start stop => trim (slice content start.toNat stop.toNat) ≠ []) bounds.start ordered)

/-! ## Spans of addressed quotes -/

theorem contiguousRun_ne_nil (supplied : List SourcePassage) (passage : SourcePassage) : contiguousRun supplied passage ≠ [] := by
  simp [contiguousRun]

/-- **A span resolved through a passage is source text**, with the quote's own characters, that reaches into the passage. -/
theorem resolveAssignment_source {unicode : Unicode} {content : Units} {supplied : List SourcePassage}
    {assignment : EvidenceAssignment} {s : SourceSpan} (h : resolveAssignment unicode content supplied assignment = some s) :
    0 ≤ s.start ∧ s.start ≤ s.stop ∧ s.stop ≤ content.length ∧
      solid (slice content s.start.toNat s.stop.toNat) = solid assignment.quote ∧
      ∃ p ∈ supplied, p.id = assignment.passageId ∧ s.start < p.stop ∧ p.start < s.stop := by
  unfold resolveAssignment at h
  split at h
  next passage hpassage =>
    obtain ⟨hsupplied, hid⟩ := List.mem_filter.1 (hpassage ▸ List.mem_singleton_self passage)
    split at h
    next => cases h
    next hguard =>
      simp only at h
      split at h
      next hexact =>
        obtain ⟨found, hfound, rfl⟩ := Option.map_eq_some_iff.1 h
        have hresolved := resolved_of_some hfound
        obtain ⟨run, hrun, i, j, hij, hj, hstart, hstop, hquote⟩ := hresolved.inside
        rw [List.mem_singleton.1 hrun] at hj hstart hstop hquote
        simp only at hj hstart hstop hquote
        have hne := contiguousRun_ne_nil supplied passage
        have hfirst := List.all_eq_true.1 hexact _ (List.head_mem hne)
        have hlast := List.all_eq_true.1 hexact _ (List.getLast_mem hne)
        simp only [byteExact, Bool.and_eq_true, decide_eq_true_eq] at hfirst hlast
        have hstartOf : startOf (contiguousRun supplied passage) = ((contiguousRun supplied passage).head hne).start := by
          rw [startOf, List.head?_eq_some_head hne]
          rfl
        have hstopOf : stopOf (contiguousRun supplied passage) = ((contiguousRun supplied passage).getLast hne).stop := by
          rw [stopOf, List.getLast?_eq_some_getLast hne]
          rfl
        rw [length_slice (by omega)] at hj
        -- The segment is not empty, as the quote is not blank.
        have hsome : 0 < j := by
          by_contra hzero
          have hempty : found.quote = [] := by
            rw [hquote, show j = 0 by omega]
            simp [slice]
          have hsolid := hresolved.solid
          rw [hempty] at hsolid
          exact solid_ne_nil (not_or.1 hguard).1 hsolid.symm
        have htext : slice content found.start.toNat found.stop.toNat = found.quote := by
          rw [hquote, slice_slice (by omega)]
          congr 1 <;> omega
        refine ⟨by simp only; omega, by simp only; omega, by simp only; omega, ?_, passage, hsupplied, by simpa using hid, ?_⟩
        · simp only
          rw [htext, hresolved.solid]
        · exact hresolved.overlaps passage.extent rfl
      next => cases h
  next => cases h

/-! ## Spans of a topic -/

section

variable {α κ : Type} [DecidableEq κ] {key : α → κ} {xs : List α} {x y : α}

theorem lastOfKey_concat : lastOfKey key (xs ++ [x]) = if (lastOfKey key xs).any (key · = key x) then
    (lastOfKey key xs).map fun y => if key y = key x then x else y else lastOfKey key xs ++ [x] := by
  simp [lastOfKey, List.foldl_append]

theorem mem_of_mem_lastOfKey (h : y ∈ lastOfKey key xs) : y ∈ xs := by
  induction xs using List.reverseRecOn generalizing y with
  | nil => exact h
  | append_singleton xs x ih =>
    rw [List.mem_append, List.mem_singleton]
    rw [lastOfKey_concat] at h
    split at h
    next =>
      obtain ⟨z, hz, rfl⟩ := List.mem_map.1 h
      split
      next => exact .inr rfl
      next => exact .inl (ih hz)
    next => exact (List.mem_append.1 h).imp ih List.mem_singleton.1

theorem keys_lastOfKey_concat : (lastOfKey key (xs ++ [x])).map key =
    if key x ∈ (lastOfKey key xs).map key then (lastOfKey key xs).map key else (lastOfKey key xs).map key ++ [key x] := by
  have hany : (lastOfKey key xs).any (key · = key x) = true ↔ key x ∈ (lastOfKey key xs).map key := by simp
  have hsame : key ∘ (fun y => if key y = key x then x else y) = key := by
    funext y
    simp only [Function.comp_apply]
    split
    next h => exact h.symm
    next => rfl
  rw [lastOfKey_concat]
  split
  next h => rw [if_pos (hany.1 h), List.map_map, hsame]
  next h => rw [if_neg fun hx => h (hany.2 hx), List.map_append, List.map_cons, List.map_nil]

/-- Each key is kept, once. -/
theorem keys_lastOfKey (xs : List α) : ((lastOfKey key xs).map key).Nodup ∧ ∀ x ∈ xs, key x ∈ (lastOfKey key xs).map key := by
  induction xs using List.reverseRecOn with
  | nil => exact ⟨List.nodup_nil, fun x hx => absurd hx List.not_mem_nil⟩
  | append_singleton xs x ih =>
    rw [keys_lastOfKey_concat]
    split
    next hx =>
      refine ⟨ih.1, fun z hz => ?_⟩
      rcases List.mem_append.1 hz with hz | hz
      · exact ih.2 z hz
      · rwa [List.mem_singleton.1 hz]
    next hx =>
      refine ⟨List.concat_eq_append ▸ ih.1.concat hx, fun z hz => ?_⟩
      rcases List.mem_append.1 hz with hz | hz
      · exact List.mem_append_left _ (ih.2 z hz)
      · exact List.mem_singleton.1 hz ▸ List.mem_append_right _ (List.mem_singleton_self _)

end

def SourceSpan.text (content : Units) (s : SourceSpan) : Units := slice content s.start.toNat s.stop.toNat

theorem slice_of_occurrence {t quote : Units} {i j k : Nat} (hquote : quote ≠ []) (h : k ∈ occurrences quote (slice t i j)) :
    i + k + quote.length ≤ t.length ∧ slice t (i + k) (i + k + quote.length) = quote := by
  obtain ⟨a, b, hab, rfl⟩ := mem_occurrences.1 h
  have hlen := congrArg List.length hab
  have hpos := List.length_pos_of_ne_nil hquote
  simp only [slice, List.length_drop, List.length_take, List.length_append] at hlen
  refine ⟨by omega, ?_⟩
  rw [Nat.add_assoc, ← slice_slice (by omega : i + (a.length + quote.length) ≤ j), hab, slice_parts]

theorem resolveLegacy_source {content quote : Units} {sourceRange : Option Range} {s : SourceSpan}
    (hrange : ∀ range ∈ sourceRange, 0 ≤ range.start) (h : resolveLegacy content sourceRange quote = some s) :
    0 ≤ s.start ∧ s.start ≤ s.stop ∧ s.stop ≤ content.length ∧ s.text content = quote := by
  have hstart : 0 ≤ (sourceRange.getD ⟨0, content.length⟩).start := by
    cases sourceRange with
    | none => exact le_refl _
    | some range => exact hrange range rfl
  unfold resolveLegacy at h
  generalize sourceRange.getD ⟨0, content.length⟩ = range at h hstart
  simp only at h
  split at h
  next => cases h
  next hquote =>
    split at h
    next at_ hat =>
      cases h
      have hmem : at_ ∈ occurrences quote (sliceAt content range.start range.stop) := hat ▸ List.mem_singleton_self at_
      simp only [sliceAt, if_neg (not_lt.2 hstart)] at hmem
      obtain ⟨hin, htext⟩ := slice_of_occurrence (by rintro rfl; exact hquote rfl) hmem
      have hfirst : (range.start + at_).toNat = range.start.toNat + at_ := by omega
      have hlast : (range.start + at_ + quote.length).toNat = range.start.toNat + at_ + quote.length := by omega
      refine ⟨by simp only; omega, by simp only; omega, by simp only; omega, ?_⟩
      rw [SourceSpan.text, hfirst, hlast, htext]
    next => cases h

/-- A span of a topic: text of the source that is the quote of one of its addresses, whose passage the span reaches into, or a quote
of a topic without addresses. -/
structure FromTopic (content : Units) (topic : ClassificationTopic) (s : SourceSpan) : Prop where
  inside : 0 ≤ s.start ∧ s.start ≤ s.stop ∧ s.stop ≤ content.length
  quoted : (∃ a ∈ topic.evidenceAssignments.getD [], solid (s.text content) = solid a.quote ∧
      ∃ p ∈ topic.sourcePassages.getD [], p.id = a.passageId ∧ s.start < p.stop ∧ p.start < s.stop) ∨
    (topic.evidenceAssignments.getD [] = [] ∧ s.text content ∈ topic.evidenceQuotes)

/-- The spans leave out no quote of a topic, and one of them reaches into its range. -/
structure Resolves (content : Units) (topic : ClassificationTopic) (spans : List SourceSpan) : Prop where
  addresses : ∀ a ∈ topic.evidenceAssignments.getD [], ∃ s ∈ spans, solid (s.text content) = solid a.quote
  quotes : topic.evidenceAssignments.getD [] = [] → ∀ quote ∈ topic.evidenceQuotes, ∃ s ∈ spans, s.text content = quote
  reaches : ∀ range ∈ topic.sourceRange, ∃ s ∈ spans, s.start < range.stop ∧ range.start < s.stop

/-- What each quote of a topic resolves to. -/
def resolvedQuotes (unicode : Unicode) (content : Units) (topic : ClassificationTopic) : List (Option SourceSpan) :=
  if (topic.evidenceAssignments.getD []).isEmpty then topic.evidenceQuotes.map (resolveLegacy content topic.sourceRange)
  else (topic.evidenceAssignments.getD []).map (resolveAssignment unicode content (topic.sourcePassages.getD []))

section

variable {unicode : Unicode} {content : Units} {topic : ClassificationTopic} {s : SourceSpan}

theorem spans_eq : (resolveTopicSpans unicode content topic).spans =
    lastOfKey SourceSpan.extent (resolvedQuotes unicode content topic).reduceOption := rfl

theorem resolved_source (hrange : ∀ range ∈ topic.sourceRange, 0 ≤ range.start)
    (h : some s ∈ resolvedQuotes unicode content topic) : FromTopic content topic s := by
  unfold resolvedQuotes at h
  split at h
  next hempty =>
    obtain ⟨quote, hquote, hs⟩ := List.mem_map.1 h
    obtain ⟨hstart, hle, hstop, htext⟩ := resolveLegacy_source hrange hs
    exact ⟨⟨hstart, hle, hstop⟩, .inr ⟨List.isEmpty_iff.1 hempty, htext ▸ hquote⟩⟩
  next =>
    obtain ⟨a, ha, hs⟩ := List.mem_map.1 h
    obtain ⟨hstart, hle, hstop, hsolid, hpassage⟩ := resolveAssignment_source hs
    exact ⟨⟨hstart, hle, hstop⟩, .inl ⟨a, ha, hsolid, hpassage⟩⟩

/-- The place of a resolved span stays, if not its passage. -/
theorem place_kept (h : some s ∈ resolvedQuotes unicode content topic) :
    ∃ t ∈ (resolveTopicSpans unicode content topic).spans, t.start = s.start ∧ t.stop = s.stop := by
  obtain ⟨t, ht, hsame⟩ := List.mem_map.1 ((@keys_lastOfKey _ _ _ SourceSpan.extent _).2 s (List.reduceOption_mem_iff.2 h))
  exact ⟨t, spans_eq ▸ ht, (Prod.ext_iff.1 hsame).1, (Prod.ext_iff.1 hsame).2⟩

theorem quote_kept (h : (resolveTopicSpans unicode content topic).invalid = false) {o : Option SourceSpan}
    (ho : o ∈ resolvedQuotes unicode content topic) :
    ∃ s, o = some s ∧ ∃ t ∈ (resolveTopicSpans unicode content topic).spans, t.text content = s.text content := by
  have hall : (resolvedQuotes unicode content topic).any (·.isNone) = false :=
    (Bool.or_eq_false_iff.1 (Bool.or_eq_false_iff.1 h).1).2
  cases o with
  | none => exact absurd rfl (List.any_eq_false.1 hall none ho)
  | some s =>
    obtain ⟨t, ht, hstart, hstop⟩ := place_kept ho
    exact ⟨s, rfl, t, ht, by rw [SourceSpan.text, SourceSpan.text, hstart, hstop]⟩

theorem resolves_of_valid (hrange : ∀ range ∈ topic.sourceRange, 0 ≤ range.start)
    (h : (resolveTopicSpans unicode content topic).invalid = false) :
    Resolves content topic (resolveTopicSpans unicode content topic).spans where
  addresses a ha := by
    have hmem : resolveAssignment unicode content (topic.sourcePassages.getD []) a ∈ resolvedQuotes unicode content topic := by
      rw [resolvedQuotes, if_neg (by simpa using List.ne_nil_of_mem ha)]
      exact List.mem_map_of_mem ha
    obtain ⟨s, hs, t, ht, htext⟩ := quote_kept h hmem
    exact ⟨t, ht, htext ▸ (resolveAssignment_source hs).2.2.2.1⟩
  quotes hnone quote hquote := by
    have hmem : resolveLegacy content topic.sourceRange quote ∈ resolvedQuotes unicode content topic := by
      rw [resolvedQuotes, if_pos (by rw [hnone]; rfl)]
      exact List.mem_map_of_mem hquote
    obtain ⟨s, hs, t, ht, htext⟩ := quote_kept h hmem
    exact ⟨t, ht, htext.trans (resolveLegacy_source hrange hs).2.2.2⟩
  reaches range hmem := by
    have hreach : topic.sourceRange.any (fun range => !(resolvedQuotes unicode content topic).reduceOption.any
        fun s => s.start < range.stop && range.start < s.stop) = false := (Bool.or_eq_false_iff.1 h).2
    rw [Option.mem_def.1 hmem, Option.any_some, Bool.not_eq_false'] at hreach
    obtain ⟨s, hs, hin⟩ := List.any_eq_true.1 hreach
    obtain ⟨t, ht, hstart, hstop⟩ := place_kept (List.reduceOption_mem_iff.1 hs)
    rw [Bool.and_eq_true, decide_eq_true_eq, decide_eq_true_eq] at hin
    exact ⟨t, ht, hstart ▸ hin.1, hstop ▸ hin.2⟩

end

/-- **The spans of a topic are the source text that it quotes**: each comes from a quote, none is there twice, and where no quote is
invalid none is missing. -/
theorem topicSpans_source (unicode : Unicode) (content : Units) (topic : ClassificationTopic)
    (hrange : ∀ range ∈ topic.sourceRange, 0 ≤ range.start) :
    (∀ s ∈ (resolveTopicSpans unicode content topic).spans, FromTopic content topic s) ∧
      ((resolveTopicSpans unicode content topic).spans.map (·.extent)).Nodup ∧
      ((resolveTopicSpans unicode content topic).invalid = false →
        Resolves content topic (resolveTopicSpans unicode content topic).spans) := by
  refine ⟨fun s hs => ?_, (keys_lastOfKey _).1, resolves_of_valid hrange⟩
  exact resolved_source hrange (List.reduceOption_mem_iff.1 (mem_of_mem_lastOfKey (spans_eq ▸ hs)))

/-- A quote over two passages, with other blanks than the source. -/
def crossingTopic : ClassificationTopic where
  evidenceAssignments := some [⟨ofText "p".toList, ofText "old  oak".toList, 0⟩]
  sourcePassages := some [{ id := ofText "q".toList, text := ofText "oak".toList, start := 7, stop := 10 },
    { id := ofText "p".toList, text := ofText "an old ".toList, start := 0, stop := 7 }]
  sourceRange := some ⟨0, 7⟩

theorem crossing_source : Resolves (ofText "an old oak".toList) crossingTopic
    (resolveTopicSpans .ascii (ofText "an old oak".toList) crossingTopic).spans :=
  (topicSpans_source .ascii _ crossingTopic (by decide)).2.2 (by decide +kernel)

/-! ## What is covered -/

variable {unicode} {content : Units} {topics : List ClassificationTopic} {reviews : List (Option PassageReview)}
  {passages : List SourcePassage}

/-- Keys that are all different keep everything. -/
theorem lastOfKey_nodup {α κ : Type} [DecidableEq κ] {key : α → κ} {xs : List α} (h : (xs.map key).Nodup) :
    lastOfKey key xs = xs := by
  induction xs using List.reverseRecOn with
  | nil => rfl
  | append_singleton xs x ih =>
    rw [List.map_append, List.nodup_append] at h
    have hnew : ((lastOfKey key xs).any (key · = key x)) = false := by
      refine List.any_eq_false.2 fun y hy hsame => ?_
      exact h.2.2 (key y) (List.mem_map_of_mem (mem_of_mem_lastOfKey hy)) (key x) (List.mem_singleton_self _)
        (of_decide_eq_true hsame)
    rw [lastOfKey_concat, hnew, if_neg Bool.false_ne_true, ih h.1]

/-- A place is in a span that a topic resolves to; topics that failed and placeholders of a discovery do not count. -/
def AssignedAt (unicode : Unicode) (content : Units) (topics : List ClassificationTopic) (i : Int) : Prop :=
  ∃ topic ∈ topics, topic.classificationFailed = false ∧ topic.retryDiscovery = false ∧
    (resolveTopicSpans unicode content topic).invalid = false ∧
    ∃ s ∈ (resolveTopicSpans unicode content topic).spans, Within i s.extent

/-- A place is in a passage whose only review found evidence only. -/
def ReviewedAt (passages : List SourcePassage) (reviews : List (Option PassageReview)) (i : Int) : Prop :=
  ∃ p ∈ passages, Within i p.extent ∧ ∃ review : PassageReview, review.status = .evidenceOnly ∧
    reviews.filter (fun other => other.any (·.passageId == p.id)) = [some review]

theorem owned_of_valid {topic : ClassificationTopic} (h : (resolveTopicSpans unicode content topic).invalid = false) :
    (resolveTopicSpans unicode content topic).nonOwnedContext = false := by
  unfold resolveTopicSpans at h ⊢
  simp only [Bool.or_eq_false_iff] at h
  simp only [h.2, Bool.and_false]

theorem within_topicExtents {i : Int} :
    (∃ extent ∈ topicExtents unicode content topics, Within i extent) ↔ AssignedAt unicode content topics i := by
  unfold topicExtents AssignedAt
  constructor
  · rintro ⟨extent, hextent, hin⟩
    obtain ⟨topic, htopic, hextent⟩ := List.mem_flatMap.1 hextent
    split at hextent
    next => cases hextent
    next hcounts =>
      simp only [Bool.or_eq_true, not_or, Bool.not_eq_true] at hcounts
      simp only at hextent
      split at hextent
      next hvalid =>
        simp only [Bool.and_eq_true, Bool.not_eq_true'] at hvalid
        obtain ⟨s, hs, rfl⟩ := List.mem_map.1 hextent
        exact ⟨topic, htopic, hcounts.1, hcounts.2, hvalid.1, s, hs, hin⟩
      next => cases hextent
  · rintro ⟨topic, htopic, hfailed, hretry, hvalid, s, hs, hin⟩
    refine ⟨s.extent, List.mem_flatMap.2 ⟨topic, htopic, ?_⟩, hin⟩
    have howned := owned_of_valid hvalid
    simp only [hfailed, hretry, hvalid, howned, Bool.or_false, Bool.false_eq_true, if_false, Bool.not_false, Bool.and_true,
      if_true]
    exact List.mem_map_of_mem hs

theorem find?_of_nodup (hids : (passages.map (·.id)).Nodup) {p : SourcePassage} (hp : p ∈ passages) :
    passages.find? (·.id == p.id) = some p := by
  obtain ⟨q, hq⟩ := Option.isSome_iff_exists.1 (List.find?_isSome (p := fun q => q.id == p.id) |>.2 ⟨p, hp, by simp⟩)
  have hsame : q.id = p.id := by simpa using List.find?_some hq
  rw [hq, List.inj_on_of_nodup_map hids (List.mem_of_find?_eq_some hq) hp hsame]

theorem within_reviewed (hids : (passages.map (·.id)).Nodup) {i : Int} :
    (∃ extent ∈ reviews.filterMap (reviewedExtent passages reviews), Within i extent) ↔ ReviewedAt passages reviews i := by
  unfold ReviewedAt
  constructor
  · rintro ⟨extent, hextent, hin⟩
    obtain ⟨review, hreview, hextent⟩ := List.mem_filterMap.1 hextent
    unfold reviewedExtent at hextent
    cases review with
    | none => cases hextent
    | some review =>
      simp only at hextent
      split at hextent
      next => cases hextent
      next halone =>
        simp only [not_or, ne_eq, not_not] at halone
        obtain ⟨p, hp, rfl⟩ := Option.map_eq_some_iff.1 hextent
        have hid : p.id = review.passageId := by simpa using List.find?_some hp
        obtain ⟨only, honly⟩ := List.length_eq_one_iff.1 halone.2
        have hmem : some review ∈ reviews.filter (fun other => other.any (·.passageId == review.passageId)) :=
          List.mem_filter.2 ⟨hreview, by simp⟩
        rw [honly, List.mem_singleton] at hmem
        exact ⟨p, List.mem_of_find?_eq_some hp, hin, review, halone.1, by rw [hid, honly, hmem]⟩
  · rintro ⟨p, hp, hin, review, hstatus, honly⟩
    have hmem : some review ∈ reviews.filter (fun other => other.any (·.passageId == p.id)) := by
      rw [honly]
      exact List.mem_singleton_self _
    obtain ⟨hreview, hid⟩ := List.mem_filter.1 hmem
    have hsame : review.passageId = p.id := by simpa using hid
    refine ⟨p.extent, List.mem_filterMap.2 ⟨some review, hreview, ?_⟩, hin⟩
    unfold reviewedExtent
    simp only [hsame, honly, hstatus]
    rw [find?_of_nodup hids hp]
    rfl

/-! ## What is left over -/

/-- Spans that are left over of a range. -/
structure LeftOver (content : Units) (bounds : Range) (covered : Int → Prop) (spans : List (Int × Int)) : Prop where
  inside : ∀ s ∈ spans, bounds.start ≤ s.1 ∧ s.1 < s.2 ∧ s.2 ≤ bounds.stop
  ordered : spans.Pairwise fun s t => s.2 ≤ t.1
  free : ∀ s ∈ spans, ∀ i, Within i s → ¬covered i
  whole : ∀ i, bounds.start ≤ i → i < bounds.stop → ¬covered i → (∃ u, content[i.toNat]? = some u ∧ isSpace u = false) →
    ∃! s, s ∈ spans ∧ Within i s

variable {bounds : Range} {covered : List (Int × Int)}

/-- The covered extents inside the range, sorted, with the end of the range. -/
def sweepOrder (bounds : Range) (covered : List (Int × Int)) : List (Int × Int) :=
  (((covered.map (clamp bounds)).filter fun extent => extent.1 < extent.2) ++ [(bounds.stop, bounds.stop)]).insertionSort (·.1 ≤ ·.1)

theorem mem_sweepOrder {extent : Int × Int} : extent ∈ sweepOrder bounds covered ↔
    (extent.1 < extent.2 ∧ ∃ e ∈ covered, extent = clamp bounds e) ∨ extent = (bounds.stop, bounds.stop) := by
  unfold sweepOrder
  rw [List.mem_insertionSort, List.mem_append, List.mem_singleton, List.mem_filter, List.mem_map, decide_eq_true_eq]
  constructor
  · rintro (⟨⟨e, he, rfl⟩, hlt⟩ | rfl)
    · exact .inl ⟨hlt, e, he, rfl⟩
    · exact .inr rfl
  · rintro (⟨hlt, e, he, rfl⟩ | rfl)
    · exact .inl ⟨⟨e, he, rfl⟩, hlt⟩
    · exact .inr rfl

theorem sweepOrder_sorted : (sweepOrder bounds covered).Pairwise fun e f => e.1 ≤ f.1 := List.pairwise_insertionSort _ _

/-- Inside the range, the sweep and the covered extents have the same places. -/
theorem within_sweepOrder {i : Int} (hstart : bounds.start ≤ i) (hstop : i < bounds.stop) :
    (∃ extent ∈ sweepOrder bounds covered, Within i extent) ↔ ∃ extent ∈ covered, Within i extent := by
  constructor
  · rintro ⟨extent, hextent, hin⟩
    rcases mem_sweepOrder.1 hextent with ⟨-, e, he, rfl⟩ | rfl
    · exact ⟨e, he, le_trans (le_max_right _ _) hin.1, lt_of_lt_of_le hin.2 (min_le_right _ _)⟩
    · exact absurd hin.1 (not_le_of_gt hstop)
  · rintro ⟨e, he, hin⟩
    have hclamped : Within i (clamp bounds e) := ⟨max_le hstart hin.1, lt_min hstop hin.2⟩
    exact ⟨clamp bounds e, mem_sweepOrder.2 (.inl ⟨lt_of_le_of_lt hclamped.1 hclamped.2, e, he, rfl⟩), hclamped⟩

/-- **What a sweep of the range leaves over.** -/
theorem leftOver_gaps (hbounds : 0 ≤ bounds.start) :
    LeftOver content bounds (fun i => ∃ extent ∈ covered, Within i extent)
      (gaps (fun start stop => trim (slice content start.toNat stop.toNat) ≠ []) bounds.start (sweepOrder bounds covered)) := by
  have hinside : ∀ s ∈ gaps (fun start stop => trim (slice content start.toNat stop.toNat) ≠ []) bounds.start (sweepOrder bounds covered),
      bounds.start ≤ s.1 ∧ s.1 < s.2 ∧ s.2 ≤ bounds.stop := by
    intro s hs
    obtain ⟨hstart, hlt, extent, hextent, hstop⟩ := gaps_start s hs
    refine ⟨hstart, hlt, ?_⟩
    rcases mem_sweepOrder.1 hextent with ⟨hproper, e, he, rfl⟩ | rfl
    · rw [hstop]
      exact le_trans (le_of_lt hproper) (min_le_left _ _)
    · rw [hstop]
  have hproper : ∀ extent ∈ sweepOrder bounds covered, extent.1 ≤ extent.2 := by
    intro extent hextent
    rcases mem_sweepOrder.1 hextent with ⟨hproper, -⟩ | rfl
    · exact le_of_lt hproper
    · exact le_refl _
  have hordered := @gaps_ordered (fun start stop => trim (slice content start.toNat stop.toNat) ≠ []) (sweepOrder bounds covered)
    hproper bounds.start
  refine ⟨hinside, hordered, ?_, ?_⟩
  · intro s hs i hi hcovered
    obtain ⟨hstart, -, hstop⟩ := hinside s hs
    obtain ⟨extent, hextent, hin⟩ := (within_sweepOrder (le_trans hstart hi.1) (lt_of_lt_of_le hi.2 hstop)).2 hcovered
    exact gaps_free sweepOrder_sorted hs hi extent hextent hin
  · rintro i hstart hstop hfree ⟨u, hu, hsolid⟩
    have hfree' : ∀ extent ∈ sweepOrder bounds covered, ¬Within i extent := fun extent hextent hin =>
      hfree ((within_sweepOrder hstart hstop).1 ⟨extent, hextent, hin⟩)
    have hkeep : ∀ start stop, bounds.start ≤ start → Within i (start, stop) →
        decide (trim (slice content start.toNat stop.toNat) ≠ []) = true := by
      intro start stop hle hin
      -- The stretch has the place itself, which is not blank.
      refine decide_eq_true fun hblank => ?_
      have hmem : u ∈ slice content start.toNat stop.toNat := mem_slice hu (Int.toNat_le_toNat hin.1) (by
        have := hin.1
        have := hin.2
        simp only at *
        omega)
      rw [trim_eq_nil.1 hblank u hmem] at hsolid
      cases hsolid
    obtain ⟨gap, hgap, hin⟩ := gaps_whole hstart hfree' ⟨(bounds.stop, bounds.stop), mem_sweepOrder.2 (.inr rfl), hstop⟩ hkeep
    exact ⟨gap, ⟨hgap, hin⟩, fun other hother => within_unique hordered hother.1 hgap hother.2 hin⟩

/-- **What filing leaves over.** -/
theorem unassignedFilingSpans_partition (unicode : Unicode) (digest : Units → Units) (content : Units)
    (classification : Classification) (semanticRange : Option Range) (bounds : Range)
    (hbounds : semanticBounds content semanticRange = some bounds) :
    ∃ windows spans, sourceWindows digest content semanticRange = some windows ∧
      unassignedFilingSpans unicode digest content classification semanticRange = some spans ∧
      LeftOver content bounds (fun i => AssignedAt unicode content (classification.topics.getD []) i ∨
        ReviewedAt (windows.flatMap owned) (classification.passageReviews.getD []) i) spans := by
  obtain ⟨windows, hwindows, hspec⟩ := (source_kept_whole content).2 digest semanticRange bounds hbounds
  obtain ⟨hstart, -, -⟩ := semanticBounds_order hbounds
  have hspans := @leftOver_gaps content bounds (topicExtents unicode content (classification.topics.getD []) ++
    (classification.passageReviews.getD []).filterMap
      (reviewedExtent (windows.flatMap owned) (classification.passageReviews.getD []))) hstart
  have hcovered : ∀ i, (∃ extent ∈ topicExtents unicode content (classification.topics.getD []) ++
      (classification.passageReviews.getD []).filterMap
        (reviewedExtent (windows.flatMap owned) (classification.passageReviews.getD [])), Within i extent) ↔
      (AssignedAt unicode content (classification.topics.getD []) i ∨
        ReviewedAt (windows.flatMap owned) (classification.passageReviews.getD []) i) := by
    intro i
    rw [← within_topicExtents, ← within_reviewed hspec.ids]
    simp only [List.mem_append, or_and_right, exists_or]
  refine ⟨windows, _, hwindows, ?_, ⟨hspans.inside, hspans.ordered, fun s hs i hi hc => hspans.free s hs i hi ((hcovered i).2 hc),
    fun i hi hi' hc => hspans.whole i hi hi' (fun h => hc ((hcovered i).1 h))⟩⟩
  unfold unassignedFilingSpans
  simp only [hbounds, hwindows, Option.bind_eq_bind, Option.bind_some]
  rw [lastOfKey_nodup hspec.ids]
  rfl

theorem letter_partition : ∃ windows spans,
    sourceWindows (fun t => t.take 1) (ofText "a b".toList) (some ⟨0, 3⟩) = some windows ∧
      unassignedFilingSpans .ascii (fun t => t.take 1) (ofText "a b".toList) { topics := some [{ evidenceQuotes := [ofText "a".toList] }] }
        (some ⟨0, 3⟩) = some spans ∧
      LeftOver (ofText "a b".toList) ⟨0, 3⟩
        (fun i => AssignedAt .ascii (ofText "a b".toList) [{ evidenceQuotes := [ofText "a".toList] }] i ∨
          ReviewedAt (windows.flatMap owned) [] i) spans :=
  unassignedFilingSpans_partition .ascii (fun t => t.take 1) (ofText "a b".toList)
    { topics := some [{ evidenceQuotes := [ofText "a".toList] }] } (some ⟨0, 3⟩) ⟨0, 3⟩ (by decide)

/-- A placeholder of a discovery has not failed, and its span is left over all the same. -/
theorem placeholder_leftOver : (resolveTopicSpans .ascii (ofText "a".toList)
      { evidenceQuotes := [ofText "a".toList], retryDiscovery := true }).invalid = false ∧
    (resolveTopicSpans .ascii (ofText "a".toList) { evidenceQuotes := [ofText "a".toList], retryDiscovery := true }).spans.map (·.extent) =
      [(0, 1)] ∧
    unassignedFilingSpans .ascii (fun t => t.take 1) (ofText "a".toList)
      { topics := some [{ evidenceQuotes := [ofText "a".toList], retryDiscovery := true }] } none = some [(0, 1)] := by
  refine ⟨by decide, by decide, ?_⟩
  decide

end Zenod.Passages
