/-
The retry state of one source window (`engine/classificationDecisions.ts`): the
topics of the window with the ids that corrective responses have to echo, over
the rounds of `input`, `accept`, `coveragePending` and `unavailable`.

`decisions_kept`: as long as no row of a placeholder is given an id that another
topic keeps, the ids stay distinct, what was not asked for stays as it is, and
only placeholders leave, for their rows or for reviews of all their passages.
-/
import Zenod.Lib.JsonValue
import Zenod.Passages.Coverage

namespace Zenod.Decisions

open Zenod.Units Zenod.Passages

/-! ## The code -/

inductive PageAction
  | create | update
deriving DecidableEq

structure ClassificationPage where
  path : Units
  title : Units
  action : PageAction
deriving DecidableEq

inductive Disposition
  | evidenceOnly | appendCompactNote | integratePage | needsClarification
deriving DecidableEq

def Disposition.text : Disposition → String
  | evidenceOnly => "evidence_only"
  | appendCompactNote => "append_compact_note"
  | integratePage => "integrate_page"
  | needsClarification => "needs_clarification"

/-- A topic with all that its decision is made from. -/
structure ClassificationTopic extends Passages.ClassificationTopic where
  retryId : Option Units := none
  retrySourceRange : Option Range := none
  ideaId : Option Units := none
  topic : Units
  summary : Units
  confidence : JsonNumber
  disposition : Disposition
  pages : List ClassificationPage := []
  question : Option Units := none

structure Classification where
  topics : Option (List ClassificationTopic) := none
  passageReviews : Option (List PassageReview) := none
  disposition : Option Disposition := none
  confidence : JsonNumber
  summary : Units
  tags : List Units := []
  pages : List ClassificationPage := []
  question : Option Units := none

structure RetryDecision where
  id : Units
  topic : ClassificationTopic
  sourceWindow : Bool
  reason : Units

/-- What a `ClassificationDecisions` is made with: the content, and of the host its range and its passages.
`digest` gives the first 24 digits of a SHA-256. -/
structure Window where
  unicode : Unicode
  digest : Units → Units
  content : Units
  sourceRange : Option Range := none
  sourcePassages : Option (List SourcePassage) := none

structure State where
  current : Option Classification := none
  requested : List Units := []

/-- No topics while there is nothing current. -/
def State.topics (s : State) : List ClassificationTopic := (s.current.bind (·.topics)).getD []

def zero : JsonNumber := .ofInt 0

def text (s : String) : Units := ofText s.toList

/-! ### The length of `JSON.stringify` -/

def unitLength (u : UInt16) : Nat :=
  if u == 0x22 || u == 0x5c || u == 0x08 || u == 0x09 || u == 0x0a || u == 0x0c || u == 0x0d then 2
  else if u < 0x20 || isHigh u || isLow u then 6
  else 1

/-- Half of a surrogate pair is written as an escape. -/
def unitsLength : Units → Nat
  | [] => 0
  | [u] => unitLength u
  | u :: v :: t => if isHigh u && isLow v then 2 + unitsLength t else unitLength u + unitsLength (v :: t)

def stringLength (t : Units) : Nat := 2 + unitsLength t

def numberLength (n : JsonNumber) : Nat := if n = .nan then 4 else n.text.length

def arrayLength (items : List Nat) : Nat := 2 + items.sum + (items.length - 1)

def objectLength (entries : List (String × Nat)) : Nat :=
  arrayLength (entries.map fun e => stringLength (text e.1) + 1 + e.2)

def pageLength (page : ClassificationPage) : Nat :=
  objectLength [("path", stringLength page.path), ("title", stringLength page.title),
    ("action", stringLength (text (match page.action with | .create => "create" | .update => "update")))]

def assignmentLength (a : EvidenceAssignment) : Nat :=
  objectLength [("passageId", stringLength a.passageId), ("quote", stringLength a.quote),
    ("occurrence", numberLength (.ofInt a.occurrence))]

def rangeLength (r : Range) : Nat :=
  objectLength [("start", numberLength (.ofInt r.start)), ("end", numberLength (.ofInt r.stop))]

/-- The fields that a request has. -/
def topicLength (t : ClassificationTopic) : Nat :=
  objectLength ([("topic", stringLength t.topic), ("summary", stringLength t.summary),
      ("confidence", numberLength t.confidence), ("disposition", stringLength (text t.disposition.text)),
      ("pages", arrayLength (t.pages.map pageLength)),
      ("evidenceQuotes", arrayLength (t.evidenceQuotes.map stringLength))] ++
    (t.evidenceAssignments.map fun as => ("evidenceAssignments", arrayLength (as.map assignmentLength))).toList ++
    (t.retrySourceRange.map fun r => ("retrySourceRange", rangeLength r)).toList ++
    (t.question.map fun q => ("question", stringLength q)).toList)

def decisionLength (row : RetryDecision) : Nat :=
  objectLength [("id", stringLength row.id), ("topic", topicLength row.topic),
    ("scope", stringLength (text (if row.sourceWindow then "source_window" else "decision"))),
    ("reason", stringLength row.reason)]

def decisionsLength (rows : List RetryDecision) : Nat := arrayLength (rows.map decisionLength)

/-! ### The state's operations -/

variable (w : Window)

/-- `JSON.stringify([this.host.sourceRange ?? null, index])`. -/
def Window.indexText (index : Nat) : Units :=
  let range := match w.sourceRange with
    | some r => text "\x7b\"start\":" ++ ofText (JsonNumber.ofInt r.start).text ++ text ",\"end\":" ++
        ofText (JsonNumber.ofInt r.stop).text ++ text "\x7d"
    | none => text "null"
  text "[" ++ range ++ text "," ++ ofText (Nat.toDigits 10 index) ++ text "]"

def Window.id (index : Nat) : Units := text "cd_" ++ w.digest (w.indexText index)

def Window.coverageId (passageId : Units) : Units := text "coverage_" ++ w.digest passageId

/-- The host's slice of the content between two offsets. -/
def Window.slice (r : Range) : Units := sliceAt w.content r.start r.stop

def Window.isWindow (topic : ClassificationTopic) : Bool :=
  topic.retryDiscovery || w.sourceRange.any fun range =>
    topic.classificationFailed && topic.evidenceAssignments.isNone && topic.pages.isEmpty &&
      topic.evidenceQuotes == [w.slice range]

/-- A prior topic as it is taken over, at its index. -/
def Window.restored (index : Nat) (topic : ClassificationTopic) : ClassificationTopic :=
  let named := { topic with retryId := some (topic.retryId.getD (w.id index)) }
  if w.isWindow topic then
    { named with retryDiscovery := true, retrySourceRange := topic.retrySourceRange.or w.sourceRange }
  else named

/-- `constructor`. -/
def Window.start (prior : List ClassificationTopic) : State :=
  if prior.isEmpty then {}
  else
    { current := some
        { topics := some (prior.mapIdx w.restored), passageReviews := none, confidence := zero
          summary := text "Retry unresolved classification" } }

/-- `topic.confidence < .7`, which no `NaN` is. -/
def lowConfidence (n : JsonNumber) : Bool := n ≠ .nan && n.value < 7 / 10

def unresolved (topic : ClassificationTopic) : Bool :=
  topic.classificationFailed || topic.disposition == .needsClarification || lowConfidence topic.confidence ||
    topic.pages.any (·.action == .create)

/-- What a topic is asked again with: its proposals cut to a preview. -/
def previewOf (topic : ClassificationTopic) : ClassificationTopic where
  topic := topic.topic.take 256
  summary := topic.summary.take 256
  confidence := topic.confidence
  disposition := topic.disposition
  pages := (topic.pages.take 4).map fun page =>
    { path := page.path.take 512, title := page.title.take 256, action := page.action }
  evidenceQuotes := if topic.retryDiscovery then [] else (topic.evidenceQuotes.take 2).map (·.take 400)
  evidenceAssignments := topic.evidenceAssignments.map fun as =>
    (as.take 2).map fun a => { a with quote := a.quote.take 400 }
  retrySourceRange := topic.retrySourceRange
  -- An empty question is none.
  question := (topic.question.filter (!·.isEmpty)).map (·.take 512)

def decisionOf (topic : ClassificationTopic) : RetryDecision where
  id := topic.retryId.getD []
  topic := previewOf topic
  sourceWindow := topic.retryDiscovery
  reason := (topic.question.getD
    (text (if topic.classificationFailed then "classification_unavailable" else "destination_refinement"))).take 512

/-- The requests as long as there is room for them. -/
def decisionsFrom (rows : List RetryDecision) : List ClassificationTopic → List RetryDecision
  | [] => rows
  | topic :: rest =>
    if 24 ≤ rows.length ∨ 12000 < decisionsLength (rows ++ [decisionOf topic]) then rows
    else decisionsFrom (rows ++ [decisionOf topic]) rest

def State.pending (s : State) : List ClassificationTopic :=
  let failed := s.topics.filter (·.classificationFailed)
  if failed.isEmpty then s.topics.filter unresolved else failed

def State.retryDecisions (s : State) : List RetryDecision := decisionsFrom [] s.pending

def State.input (s : State) : State := { s with requested := s.retryDecisions.map (·.id) }

/-- `checkTopicSourceAddresses` of one topic that carries the host's range and passages. -/
def Window.addressInvalid (topic : ClassificationTopic) : Bool :=
  if (topic.evidenceAssignments.getD []).isEmpty then
    topic.evidenceAssignments.isSome && !(w.sourcePassages.getD []).isEmpty &&
      trim (w.slice (w.sourceRange.getD ⟨0, w.content.length⟩)) != []
  else
    let resolved := resolveTopicSpans w.unicode w.content topic.toClassificationTopic
    resolved.invalid && !resolved.nonOwnedContext

/-- `checkTopicDestinations` of one topic. -/
def destinationMissing (topic : ClassificationTopic) : Bool :=
  (topic.disposition == .appendCompactNote || topic.disposition == .integratePage) && topic.pages.isEmpty

def failed (question : Units) (topic : ClassificationTopic) : ClassificationTopic :=
  { topic with
    classificationFailed := true, confidence := zero, disposition := .needsClarification, question := some question }

/-- A response's topic with the host's fields in place of its own. -/
def Window.owned (topic : ClassificationTopic) : ClassificationTopic :=
  { topic with
    sourceRange := w.sourceRange, sourcePassages := w.sourcePassages, classificationFailed := false, ideaId := none
    retryDiscovery := false, retrySourceRange := none }

def Window.validate (topic : ClassificationTopic) : ClassificationTopic :=
  let copy := w.owned topic
  let source := resolveTopicSpans w.unicode w.content copy.toClassificationTopic
  let reasons :=
    (if w.addressInvalid copy || (source.invalid && !source.nonOwnedContext) then
      [text "classification_source_address_invalid"] else []) ++
    (if destinationMissing copy then [text "classification_topic_destination_missing"] else [])
  if reasons.isEmpty then copy else failed (List.intercalate (text "; ") reasons) copy

/-- A valid topic without support inside a range fails after all. -/
def Window.scoped (range : Option Range) (topic : ClassificationTopic) : ClassificationTopic :=
  if !topic.classificationFailed &&
      range.any (fun r => (resolveTopicSpans w.unicode w.content
        { topic.toClassificationTopic with sourceRange := some r }).invalid) then
    failed (text "classification_retry_source_scope_invalid") topic
  else topic

/-- `this.requested.has(id)`. -/
def State.asked (s : State) (id : Option Units) : Bool := id.any fun id => s.requested.contains id

/-- The rows of a response that are addressed to a topic. -/
def candidates (offered : List ClassificationTopic) (previous : ClassificationTopic) : List ClassificationTopic :=
  offered.filter (·.retryId == previous.retryId)

/-- Some row has no id, or none that was asked for. -/
def State.unowned (s : State) (offered : List ClassificationTopic) : Bool :=
  offered.any fun topic => topic.retryId.all (·.isEmpty) || !s.asked topic.retryId

/-- The passages of a placeholder, and the reviews that a response has one of for a passage. -/
def Window.ownedPassages (previous : ClassificationTopic) : List SourcePassage :=
  (w.sourcePassages.getD []).filter fun p =>
    (previous.retrySourceRange.or w.sourceRange).any fun r => r.start ≤ p.start && p.stop ≤ r.stop

def uniqueReviews (reviews : List PassageReview) (passages : List SourcePassage) : List PassageReview :=
  passages.flatMap fun p =>
    match reviews.filter (·.passageId == p.id) with
    | [review] => [review]
    | _ => []

/-- All passages of a placeholder are reviewed as evidence alone. -/
def Window.evidenceOnly (raw : Classification) (previous : ClassificationTopic) : Bool :=
  let owned := w.ownedPassages previous
  let reviews := uniqueReviews (raw.passageReviews.getD []) owned
  !owned.isEmpty && reviews.length == owned.length && reviews.all (·.status == .evidenceOnly)

/-- `${previous.retryId}_${index}`. -/
def childId (previous : ClassificationTopic) (index : Nat) : Units :=
  previous.retryId.getD [] ++ text "_" ++ ofText (Nat.toDigits 10 index)

/-- A row in the place of a placeholder. -/
def Window.child (previous : ClassificationTopic) (index : Nat) (candidate : ClassificationTopic) :
    ClassificationTopic :=
  let range := previous.retrySourceRange.or w.sourceRange
  let validated := w.scoped range (w.validate candidate)
  { validated with retryId := some (childId previous index), retrySourceRange := range.or validated.retrySourceRange }

/-- `${question ?? 'classification_unavailable'}; ${reason}`. -/
def noted (question : Option Units) (reason : Units) : Units :=
  question.getD (text "classification_unavailable") ++ text "; " ++ reason

/-- The one row that answers a decision. -/
def Window.answered (previous candidate : ClassificationTopic) : ClassificationTopic :=
  let replacement := w.scoped previous.retrySourceRange (w.validate candidate)
  if replacement.classificationFailed && !previous.classificationFailed then previous
  else
    { replacement with
      question :=
        if replacement.classificationFailed then some (noted previous.question (replacement.question.getD []))
        else replacement.question
      retryId := previous.retryId
      retrySourceRange := previous.retrySourceRange.or replacement.retrySourceRange
      ideaId := (previous.ideaId.filter (!·.isEmpty)).or replacement.ideaId }

/-- What a response makes of one topic. -/
def Window.revise (s : State) (raw : Classification) (offered : List ClassificationTopic)
    (previous : ClassificationTopic) : List ClassificationTopic :=
  if !s.asked previous.retryId then [previous]
  else
    let rows := candidates offered previous
    if previous.retryDiscovery && !s.unowned offered && rows.isEmpty && w.evidenceOnly raw previous then []
    else if previous.retryDiscovery && !rows.isEmpty then rows.mapIdx (w.child previous)
    else
      match rows with
      | [candidate] => [w.answered previous candidate]
      | _ =>
        if previous.classificationFailed then
          let reason :=
            if rows.isEmpty then "classification_retry_decision_missing" else "classification_retry_id_duplicate"
          [{ previous with question := some (noted previous.question (text reason)) }]
        else [previous]

/-- The reviews with those of a placeholder's passages in place of their earlier ones. -/
def Window.reviewed (s : State) (raw : Classification) (offered : List ClassificationTopic)
    (kept : Option (List PassageReview)) (previous : ClassificationTopic) : Option (List PassageReview) :=
  if s.asked previous.retryId && previous.retryDiscovery && !s.unowned offered then
    let reviews := uniqueReviews (raw.passageReviews.getD []) (w.ownedPassages previous)
    some ((kept.getD []).filter (fun r => !reviews.any (·.passageId == r.passageId)) ++ reviews)
  else kept

def Window.accept (s : State) (raw : Classification) : State :=
  match raw.topics, s.current with
  | none, _ => s
  | some offered, none =>
    let topics := offered.mapIdx fun index topic => { w.validate topic with retryId := some (w.id index) }
    { s with current := some { raw with topics := some topics } }
  | some offered, some current =>
    let topics := s.topics.flatMap (w.revise s raw offered)
    let passageReviews := s.topics.foldl (w.reviewed s raw offered) current.passageReviews
    { s with current := some { current with topics := some topics, passageReviews } }

/-- The placeholder for a passage that nothing covers. -/
def Window.uncovered (passage : SourcePassage) : ClassificationTopic where
  topic := text "Unclassified source passage"
  summary := text "Source coverage pending"
  evidenceQuotes := [passage.text]
  confidence := zero
  disposition := .needsClarification
  classificationFailed := true
  question := some (text "classification_assigned_passage_unsupported")
  retryDiscovery := true
  retryId := some (w.coverageId passage.id)
  retrySourceRange := some ⟨passage.start, passage.stop⟩
  sourceRange := w.sourceRange
  sourcePassages := w.sourcePassages

/-- One passage id of `coveragePending`: what is not the host's, or has its placeholder, is passed over. -/
def Window.cover (topics : List ClassificationTopic) (passageId : Units) : List ClassificationTopic :=
  match (w.sourcePassages.getD []).find? (·.id == passageId) with
  | none => topics
  | some passage =>
    if topics.any (·.retryId == some (w.coverageId passageId)) then topics else topics ++ [w.uncovered passage]

def Window.coveragePending (s : State) (passageIds : List Units) : State :=
  match s.current with
  | none => s
  | some current => { s with current := some { current with topics := current.topics.map (passageIds.foldl w.cover) } }

/-- The reason that an error's message gives: `/^classify: [a-z_]+$/`. -/
def reasonOf (message : Option Units) : Units :=
  let known := message.bind fun m =>
    let rest := m.drop 10
    if m.take 10 = text "classify: " ∧ rest ≠ [] ∧ rest.all (fun u => (0x61 ≤ u && u ≤ 0x7a) || u == 0x5f) then
      some rest
    else none
  match known with
  | some rest => text "classification_retry_" ++ rest
  | none => text "classification_retry_unavailable"

/-- A failed topic that was asked for, once no response came. -/
def State.excused (s : State) (reason : Units) (topic : ClassificationTopic) : ClassificationTopic :=
  if topic.classificationFailed && s.asked topic.retryId then
    { topic with question := some ((noted topic.question reason).take 1024) }
  else topic

def State.unavailable (s : State) (message : Option Units) : State :=
  match s.current with
  | none => s
  | some current =>
    { s with current := some { current with topics := current.topics.map (·.map (s.excused (reasonOf message))) } }

inductive Call
  | input
  | accept (raw : Classification)
  | coveragePending (passageIds : List Units)
  | unavailable (message : Option Units)

def Window.step (s : State) : Call → State
  | .input => s.input
  | .accept raw => w.accept s raw
  | .coveragePending passageIds => w.coveragePending s passageIds
  | .unavailable message => s.unavailable message

def Window.run (s : State) (calls : List Call) : State := calls.foldl w.step s

/-! ## The ids of rows -/

theorem underscore_notMem (n : Nat) : (0x5f : UInt16) ∉ ofText (Nat.toDigits 10 n) := by
  intro hmem
  obtain ⟨c, hc, hunit⟩ := List.mem_map.1 hmem
  have hdigit : c.isDigit = true := Nat.isDigit_of_mem_toDigits (by decide) (by decide) hc
  simp only [Char.isDigit, Bool.and_eq_true, decide_eq_true_eq, ge_iff_le, UInt32.le_iff_toNat_le] at hdigit
  have hnat : c.toNat % 65536 = 0x5f := congrArg UInt16.toNat hunit
  have hle : c.toNat ≤ 57 := hdigit.2
  omega

/-- The digits of a number tell which it is. -/
theorem ofText_toDigits_inj {m n : Nat} (h : ofText (Nat.toDigits 10 m) = ofText (Nat.toDigits 10 n)) : m = n := by
  have hback : ∀ k : Nat, (ofText (Nat.toDigits 10 k)).map (fun u => Char.ofNat u.toNat) = Nat.toDigits 10 k := by
    intro k
    rw [ofText, List.map_map]
    refine (List.map_congr_left fun c hc => ?_).trans (List.map_id _)
    have hdigit : c.isDigit = true := Nat.isDigit_of_mem_toDigits (by decide) (by decide) hc
    simp only [Char.isDigit, Bool.and_eq_true, decide_eq_true_eq, ge_iff_le, UInt32.le_iff_toNat_le] at hdigit
    have hle : c.toNat ≤ 57 := hdigit.2
    have hnat : c.toNat.toUInt16.toNat = c.toNat := by
      rw [Nat.toUInt16, UInt16.toNat_ofNat']
      omega
    simp only [Function.comp_apply, hnat, Char.ofNat_toNat, id]
  have hdigits : Nat.toDigits 10 m = Nat.toDigits 10 n := by rw [← hback m, ← hback n, h]
  have hread := congrArg (Nat.ofDigitChars 10 · 0) hdigits
  simpa only [Nat.ofDigitChars_ten_toDigits] using hread

/-- What stands before the last underscore is told by a text, and what stands behind it. -/
theorem append_underscore_inj {a b ds es : Units} (hds : (0x5f : UInt16) ∉ ds) (hes : (0x5f : UInt16) ∉ es)
    (h : a ++ text "_" ++ ds = b ++ text "_" ++ es) : a = b ∧ ds = es := by
  have hcut : ∀ {x ds : Units}, (0x5f : UInt16) ∉ ds →
      (x ++ text "_" ++ ds).reverse.takeWhile (· != 0x5f) = ds.reverse := by
    intro x ds hds
    have hpass : ∀ u ∈ ds.reverse, (u != 0x5f) = true := by
      intro u hu
      rw [bne_iff_ne]
      rintro rfl
      exact hds (List.mem_reverse.1 hu)
    rw [List.reverse_append, List.reverse_append, List.takeWhile_append_of_pos hpass]
    exact List.append_nil _
  have hlast : ds = es := by
    have := hcut (x := a) hds
    rw [h, hcut hes] at this
    exact (List.reverse_injective this).symm
  subst hlast
  exact ⟨List.append_cancel_right (List.append_cancel_right h), rfl⟩

theorem childId_inj {t u : ClassificationTopic} {i j : Nat} (h : childId t i = childId u j) :
    t.retryId.getD [] = u.retryId.getD [] ∧ i = j := by
  obtain ⟨hid, hindex⟩ := append_underscore_inj (underscore_notMem i) (underscore_notMem j) h
  exact ⟨hid, ofText_toDigits_inj hindex⟩

/-! ## What a response makes of a topic -/

variable {w} {s : State} {raw : Classification} {offered : List ClassificationTopic} {t : ClassificationTopic}

/-- A placeholder that rows take the place of. -/
def State.replaced (s : State) (offered : List ClassificationTopic) (t : ClassificationTopic) : Bool :=
  s.asked t.retryId && t.retryDiscovery && !(candidates offered t).isEmpty

/-- A placeholder that goes without a row. -/
def Window.settledBy (w : Window) (s : State) (raw : Classification) (offered : List ClassificationTopic)
    (t : ClassificationTopic) : Bool :=
  s.asked t.retryId && t.retryDiscovery && (candidates offered t).isEmpty && !s.unowned offered && w.evidenceOnly raw t

/-- What becomes of one topic. -/
inductive Revised (w : Window) (s : State) (raw : Classification) (offered : List ClassificationTopic)
    (t : ClassificationTopic) : List ClassificationTopic → Prop
  | kept : Revised w s raw offered t [t]
  | noted (question : Units) : s.asked t.retryId = true → (candidates offered t).length ≠ 1 →
      t.classificationFailed = true → Revised w s raw offered t [{ t with question := some question }]
  | answered (row : ClassificationTopic) : s.asked t.retryId = true → candidates offered t = [row] →
      Revised w s raw offered t [w.answered t row]
  | replaced : s.replaced offered t = true → Revised w s raw offered t ((candidates offered t).mapIdx (w.child t))
  | settled : w.settledBy s raw offered t = true → Revised w s raw offered t []

theorem revised (w : Window) (s : State) (raw : Classification) (offered : List ClassificationTopic)
    (t : ClassificationTopic) : Revised w s raw offered t (w.revise s raw offered t) := by
  unfold Window.revise
  by_cases hasked : s.asked t.retryId = true
  · simp only [hasked, Bool.not_true, Bool.false_eq_true, if_false]
    by_cases hsettled : w.settledBy s raw offered t = true
    · have hgone := hsettled
      simp only [Window.settledBy, hasked, Bool.true_and, Bool.and_eq_true] at hgone
      obtain ⟨⟨⟨hdiscovery, hempty⟩, hunowned⟩, heo⟩ := hgone
      rw [if_pos (by simp [hdiscovery, hempty, hunowned, heo])]
      exact .settled hsettled
    · have hstays := hsettled
      simp only [Window.settledBy, hasked, Bool.true_and, Bool.and_eq_true, not_and, Bool.not_eq_true] at hstays
      rw [if_neg (by
        simp only [Bool.and_eq_true, not_and, Bool.not_eq_true]
        intro ⟨⟨hdiscovery, howned⟩, hempty⟩
        exact hstays ⟨⟨hdiscovery, hempty⟩, howned⟩)]
      by_cases hreplaced : s.replaced offered t = true
      · rw [if_pos (by simpa [State.replaced, hasked] using hreplaced)]
        exact .replaced hreplaced
      · rw [if_neg (by simpa [State.replaced, hasked] using hreplaced)]
        split
        next row hrow => exact .answered row hasked hrow
        next hrows =>
          split
          next hfailed =>
            refine .noted _ hasked ?_ hfailed
            intro hone
            obtain ⟨row, hrow⟩ := List.length_eq_one_iff.1 hone
            exact hrows row hrow
          next => exact .kept
  · rw [Bool.not_eq_true] at hasked
    rw [if_pos (by simp [hasked])]
    exact .kept

/-- An answer keeps the id of what it answers. -/
@[simp] theorem answered_retryId (t row : ClassificationTopic) : (w.answered t row).retryId = t.retryId := by
  simp only [Window.answered]
  split
  next => rfl
  next => rfl

@[simp] theorem child_retryId (t row : ClassificationTopic) (i : Nat) :
    (w.child t i row).retryId = some (childId t i) := rfl

/-- A topic that is neither replaced nor settled keeps its id; the ids of rows are made of it. -/
theorem ids_revise (w : Window) (s : State) (raw : Classification) (offered : List ClassificationTopic)
    (t : ClassificationTopic) {id : Option Units} (h : id ∈ (w.revise s raw offered t).map (·.retryId)) :
    id = t.retryId ∨
      (s.replaced offered t = true ∧ ∃ i, i < (candidates offered t).length ∧ id = some (childId t i)) := by
  generalize hout : w.revise s raw offered t = out at h
  have hrevised := revised w s raw offered t
  rw [hout] at hrevised
  cases hrevised with
  | kept => exact .inl (by simpa using h)
  | noted => exact .inl (by simpa using h)
  | answered => exact .inl (by simpa using h)
  | replaced hr =>
    obtain ⟨u, hu, rfl⟩ := List.mem_map.1 h
    obtain ⟨i, hi, rfl⟩ := List.mem_mapIdx.1 hu
    exact .inr ⟨hr, i, hi, rfl⟩
  | settled => simp at h

theorem nodup_revise (w : Window) (s : State) (raw : Classification) (offered : List ClassificationTopic)
    (t : ClassificationTopic) : ((w.revise s raw offered t).map (·.retryId)).Nodup := by
  generalize hout : w.revise s raw offered t = out
  have hrevised := revised w s raw offered t
  rw [hout] at hrevised
  cases hrevised with
  | kept => exact List.nodup_singleton _
  | noted => exact List.nodup_singleton _
  | answered => exact List.nodup_singleton _
  | replaced =>
    refine List.pairwise_map.2 (List.pairwise_iff_getElem.2 ?_)
    intro i j hi hj hij heq
    simp only [List.getElem_mapIdx, child_retryId, Option.some.injEq] at heq
    have := (childId_inj heq).2
    omega
  | settled => exact List.nodup_nil

/-! ## Distinct ids -/

/-- Every topic has an id, and no two the same. -/
structure Distinct (topics : List ClassificationTopic) : Prop where
  named : ∀ t ∈ topics, t.retryId.isSome = true
  nodup : (topics.map (·.retryId)).Nodup

/-- No row of a placeholder is given an id that a topic has, and a first response's topics have ids of their own. -/
def Window.Fresh (w : Window) (s : State) : Call → Prop
  | .accept raw =>
    match raw.topics, s.current with
    | none, _ => True
    | some offered, none => ((List.range offered.length).map w.id).Nodup
    | some offered, some _ =>
      ∀ t ∈ s.topics, s.replaced offered t = true → ∀ i < (candidates offered t).length, ∀ u ∈ s.topics,
        u.retryId ≠ some (childId t i)
  | _ => True

theorem Distinct.accepted {current : Classification} (h : Distinct s.topics) (hcurrent : s.current = some current)
    (htopics : raw.topics = some offered) (hfresh : w.Fresh s (.accept raw)) :
    Distinct (s.topics.flatMap (w.revise s raw offered)) := by
  simp only [Window.Fresh, htopics, hcurrent] at hfresh
  constructor
  · intro u hu
    obtain ⟨t, ht, hu⟩ := List.mem_flatMap.1 hu
    rcases ids_revise w s raw offered t (List.mem_map_of_mem hu) with hid | ⟨-, i, -, hid⟩
    · rw [hid]
      exact h.named t ht
    · rw [hid]
      rfl
  · rw [List.map_flatMap, List.nodup_flatMap]
    refine ⟨fun t _ => nodup_revise w s raw offered t, ?_⟩
    have hpairs := List.pairwise_map.1 h.nodup
    refine List.Pairwise.imp_of_mem ?_ hpairs
    intro t u ht hu hne id hid hid'
    -- An id that two topics' outcomes share would be kept twice, given twice, or given and kept.
    rcases ids_revise w s raw offered t hid with rfl | ⟨hr, i, hi, rfl⟩
    · rcases ids_revise w s raw offered u hid' with heq | ⟨hr', j, hj, heq⟩
      · exact hne heq
      · exact hfresh u hu hr' j hj t ht heq
    · rcases ids_revise w s raw offered u hid' with heq | ⟨-, j, -, heq⟩
      · exact hfresh t ht hr i hi u hu heq.symm
      · have hsame := (childId_inj (Option.some.inj heq)).1
        obtain ⟨a, ha⟩ := Option.isSome_iff_exists.1 (h.named t ht)
        obtain ⟨b, hb⟩ := Option.isSome_iff_exists.1 (h.named u hu)
        rw [ha, hb] at hsame
        exact hne (by rw [ha, hb]; exact congrArg some hsame)

theorem Distinct.cover {topics : List ClassificationTopic} (h : Distinct topics) (passageId : Units) :
    Distinct (w.cover topics passageId) := by
  unfold Window.cover
  split
  next => exact h
  next passage hpassage =>
    have hid : passage.id = passageId := by simpa using List.find?_some hpassage
    split
    next => exact h
    next hnew =>
      constructor
      · intro t ht
        rcases List.mem_append.1 ht with ht | ht
        · exact h.named t ht
        · rw [List.mem_singleton.1 ht]
          rfl
      · rw [List.map_append]
        refine List.Nodup.append h.nodup (List.nodup_singleton _) ?_
        intro id hmem hmem'
        obtain ⟨t, ht, rfl⟩ := List.mem_map.1 hmem
        refine hnew (List.any_eq_true.2 ⟨t, ht, ?_⟩)
        rw [List.mem_singleton.1 hmem', ← hid]
        exact beq_self_eq_true _

theorem Distinct.foldl_cover {topics : List ClassificationTopic} (h : Distinct topics) (passageIds : List Units) :
    Distinct (passageIds.foldl w.cover topics) := by
  induction passageIds generalizing topics with
  | nil => exact h
  | cons passageId passageIds ih => exact ih (h.cover passageId)

/-- Only the question is changed when no response comes. -/
theorem excused_eq (s : State) (reason : Units) (t : ClassificationTopic) :
    s.excused reason t = { t with question := (s.excused reason t).question } ∧
      (s.asked t.retryId = false → s.excused reason t = t) := by
  unfold State.excused
  split
  next h =>
    refine ⟨rfl, fun hasked => ?_⟩
    rw [hasked, Bool.and_false] at h
    exact absurd h Bool.false_ne_true
  next => exact ⟨rfl, fun _ => rfl⟩

theorem excused_retryId (s : State) (reason : Units) (t : ClassificationTopic) :
    (s.excused reason t).retryId = t.retryId := by
  rw [(excused_eq s reason t).1]

theorem topics_coveragePending (s : State) (passageIds : List Units) :
    (w.coveragePending s passageIds).topics = passageIds.foldl w.cover s.topics ∨
      (w.coveragePending s passageIds).topics = s.topics := by
  unfold Window.coveragePending State.topics
  rcases hcurrent : s.current with _ | current
  · exact .inr (by simp [hcurrent])
  · rcases htopics : current.topics with _ | topics
    · exact .inr (by simp [htopics])
    · exact .inl (by simp [htopics])

theorem topics_unavailable (s : State) (message : Option Units) :
    (s.unavailable message).topics = s.topics.map (s.excused (reasonOf message)) := by
  unfold State.unavailable State.topics
  rcases hcurrent : s.current with _ | current
  · simp [hcurrent]
  · rcases htopics : current.topics with _ | topics
    · simp [htopics]
    · simp [htopics]

theorem topics_accept {current : Classification} (hcurrent : s.current = some current)
    (htopics : raw.topics = some offered) :
    (w.accept s raw).topics = s.topics.flatMap (w.revise s raw offered) := by
  simp [Window.accept, htopics, hcurrent, State.topics]

theorem topics_first (hcurrent : s.current = none) (htopics : raw.topics = some offered) :
    (w.accept s raw).topics =
      offered.mapIdx fun index topic => { w.validate topic with retryId := some (w.id index) } := by
  simp [Window.accept, htopics, hcurrent, State.topics]

theorem accept_legacy (s : State) (htopics : raw.topics = none) : w.accept s raw = s := by
  simp [Window.accept, htopics]

theorem topics_of_none (h : s.current = none) : s.topics = [] := by
  simp [State.topics, h]

theorem Distinct.nil : Distinct [] := ⟨fun _ ht => absurd ht List.not_mem_nil, List.nodup_nil⟩

theorem map_mapIdx {α β γ : Type} (f : Nat → α → β) (g : β → γ) (l : List α) :
    (l.mapIdx f).map g = l.mapIdx fun i a => g (f i a) := by
  refine List.ext_getElem (by simp) fun i _ _ => ?_
  simp only [List.getElem_map, List.getElem_mapIdx]

theorem Distinct.start {prior : List ClassificationTopic}
    (hprior : (prior.mapIdx fun index topic => topic.retryId.getD (w.id index)).Nodup) :
    Distinct (w.start prior).topics := by
  have hid : ∀ index topic, (w.restored index topic).retryId = some (topic.retryId.getD (w.id index)) := by
    intro index topic
    simp only [Window.restored]
    split
    next => rfl
    next => rfl
  unfold Window.start
  split
  next => exact Distinct.nil
  next =>
    show Distinct (prior.mapIdx w.restored)
    constructor
    · intro t ht
      obtain ⟨i, hi, rfl⟩ := List.mem_mapIdx.1 ht
      rw [hid]
      rfl
    · rw [map_mapIdx]
      simp only [hid]
      have := hprior.map (Option.some_injective Units)
      rwa [map_mapIdx] at this

theorem Distinct.step {call : Call} (h : Distinct s.topics) (hfresh : w.Fresh s call) :
    Distinct (w.step s call).topics := by
  cases call with
  | input => exact h
  | accept raw =>
    show Distinct (w.accept s raw).topics
    rcases htopics : raw.topics with _ | offered
    · rw [accept_legacy s htopics]
      exact h
    · rcases hcurrent : s.current with _ | current
      · simp only [Window.Fresh, htopics, hcurrent] at hfresh
        rw [topics_first hcurrent htopics]
        constructor
        · intro t ht
          obtain ⟨i, hi, rfl⟩ := List.mem_mapIdx.1 ht
          rfl
        · rw [map_mapIdx]
          have hids : (offered.mapIdx fun index _ => some (w.id index)) =
              ((List.range offered.length).map w.id).map some := by
            refine List.ext_getElem (by simp) fun i _ _ => ?_
            simp only [List.getElem_map, List.getElem_mapIdx, List.getElem_range]
          show (offered.mapIdx fun index _ => some (w.id index)).Nodup
          rw [hids]
          exact hfresh.map (Option.some_injective Units)
      · rw [topics_accept hcurrent htopics]
        exact h.accepted hcurrent htopics hfresh
  | coveragePending passageIds =>
    rcases topics_coveragePending s passageIds with heq | heq
    · show Distinct (w.coveragePending s passageIds).topics
      rw [heq]
      exact h.foldl_cover passageIds
    · show Distinct (w.coveragePending s passageIds).topics
      rw [heq]
      exact h
  | unavailable message =>
    show Distinct (s.unavailable message).topics
    rw [topics_unavailable]
    constructor
    · intro t ht
      obtain ⟨u, hu, rfl⟩ := List.mem_map.1 ht
      rw [excused_retryId]
      exact h.named u hu
    · rw [List.map_map]
      simp only [Function.comp_def, excused_retryId]
      exact h.nodup

/-! ## What a call leaves as it is -/

/-- All passages of a placeholder have one review each, as evidence alone. -/
def Window.Reviewed (w : Window) (raw : Classification) (t : ClassificationTopic) : Prop :=
  w.ownedPassages t ≠ [] ∧ ∀ p ∈ w.ownedPassages t, ∃ review,
    (raw.passageReviews.getD []).filter (·.passageId == p.id) = [review] ∧ review.status = .evidenceOnly

theorem uniqueReviews_cons (reviews : List PassageReview) (p : SourcePassage) (passages : List SourcePassage) :
    (∃ review, reviews.filter (·.passageId == p.id) = [review] ∧
      uniqueReviews reviews (p :: passages) = review :: uniqueReviews reviews passages) ∨
    ((∀ review, reviews.filter (·.passageId == p.id) ≠ [review]) ∧
      uniqueReviews reviews (p :: passages) = uniqueReviews reviews passages) := by
  unfold uniqueReviews
  rw [List.flatMap_cons]
  split
  next review hone => exact .inl ⟨review, hone, rfl⟩
  next hnone => exact .inr ⟨fun review hreview => hnone review hreview, rfl⟩

theorem uniqueReviews_length_le (reviews : List PassageReview) (passages : List SourcePassage) :
    (uniqueReviews reviews passages).length ≤ passages.length := by
  induction passages with
  | nil => exact Nat.le_refl _
  | cons p passages ih =>
    rcases uniqueReviews_cons reviews p passages with ⟨review, -, heq⟩ | ⟨-, heq⟩ <;>
      rw [heq] <;> simp only [List.length_cons] <;> omega

/-- As many reviews as passages means one for each. -/
theorem reviews_of_length {reviews : List PassageReview} {passages : List SourcePassage}
    (hlength : (uniqueReviews reviews passages).length = passages.length)
    (hall : ∀ review ∈ uniqueReviews reviews passages, review.status = .evidenceOnly) :
    ∀ p ∈ passages, ∃ review, reviews.filter (·.passageId == p.id) = [review] ∧ review.status = .evidenceOnly := by
  induction passages with
  | nil => exact nofun
  | cons p passages ih =>
    intro q hq
    rcases uniqueReviews_cons reviews p passages with ⟨review, hone, heq⟩ | ⟨-, heq⟩
    · rw [heq] at hlength hall
      rcases List.mem_cons.1 hq with rfl | hq
      · exact ⟨review, hone, hall review List.mem_cons_self⟩
      · exact ih (Nat.succ.inj hlength) (fun r hr => hall r (List.mem_cons_of_mem _ hr)) q hq
    · have := uniqueReviews_length_le reviews passages
      rw [heq] at hlength
      simp only [List.length_cons] at hlength
      omega

theorem reviewed_of_settled (h : w.settledBy s raw offered t = true) :
    s.asked t.retryId = true ∧ t.retryDiscovery = true ∧ candidates offered t = [] ∧ w.Reviewed raw t := by
  simp only [Window.settledBy, Window.evidenceOnly, Bool.and_eq_true, beq_iff_eq, List.all_eq_true, List.isEmpty_iff,
    Bool.not_eq_true', List.isEmpty_eq_false_iff] at h
  obtain ⟨⟨⟨⟨hasked, hdiscovery⟩, hnone⟩, -⟩, ⟨howned, hlength⟩, hall⟩ := h
  exact ⟨hasked, hdiscovery, hnone, howned, reviews_of_length hlength hall⟩

/-- What a call does to the topics there are. -/
structure Kept (w : Window) (s : State) (call : Call) (s' : State) : Prop where
  /-- Topics that were not asked for stay as they are. -/
  unasked : (s.topics.filter fun t => !s.asked t.retryId).Sublist s'.topics
  /-- A response changes the one topic that a row is addressed to, and of failed ones without a row, or with several,
  the question. -/
  changed : ∀ raw offered, call = .accept raw → raw.topics = some offered → ∀ t ∈ s.topics, ∀ u ∈ s'.topics,
    u.retryId = t.retryId → u ≠ t → s.asked t.retryId = true ∧ ((∃ row, candidates offered t = [row]) ∨
      (t.classificationFailed = true ∧ (candidates offered t).length ≠ 1 ∧ u = { t with question := u.question }))
  /-- Only placeholders leave, for their rows or for reviews of all their passages. -/
  left : ∀ t ∈ s.topics, (∀ u ∈ s'.topics, u.retryId ≠ t.retryId) → ∃ raw offered, call = .accept raw ∧
    raw.topics = some offered ∧ s.asked t.retryId = true ∧ t.retryDiscovery = true ∧
    ((candidates offered t ≠ [] ∧ ∀ (i : Nat) (row : ClassificationTopic), (candidates offered t)[i]? = some row →
      w.child t i row ∈ s'.topics) ∨ (candidates offered t = [] ∧ w.Reviewed raw t))

theorem filter_sublist_flatMap {α : Type} {p : α → Bool} {f : α → List α} {l : List α}
    (h : ∀ a, p a = true → f a = [a]) : (l.filter p).Sublist (l.flatMap f) := by
  induction l with
  | nil => exact List.Sublist.refl _
  | cons a l ih =>
    rw [List.flatMap_cons, List.filter_cons]
    split
    next ha =>
      rw [h a ha]
      exact ih.cons_cons a
    next => exact ih.trans (List.sublist_append_right _ _)

theorem revise_unasked (h : s.asked t.retryId = false) : w.revise s raw offered t = [t] := by
  simp [Window.revise, h]

theorem Kept.accepted {current : Classification} (h : Distinct s.topics) (hcurrent : s.current = some current)
    (htopics : raw.topics = some offered) (hfresh : w.Fresh s (.accept raw)) :
    Kept w s (.accept raw) (w.accept s raw) := by
  have hresult := topics_accept (w := w) hcurrent htopics
  simp only [Window.Fresh, htopics, hcurrent] at hfresh
  constructor
  · rw [hresult]
    refine filter_sublist_flatMap fun t ht => revise_unasked ?_
    simpa using ht
  · intro raw' offered' hcall htopics' t ht u hu hid hne
    cases hcall
    cases htopics.symm.trans htopics'
    rw [hresult] at hu
    obtain ⟨t', ht', hu⟩ := List.mem_flatMap.1 hu
    have hsame : t' = t := by
      rcases ids_revise w s raw offered t' (List.mem_map_of_mem hu) with hid' | ⟨hr, i, hi, hid'⟩
      · exact List.inj_on_of_nodup_map h.nodup ht' ht (hid'.symm.trans hid)
      · exact absurd (hid.symm.trans hid') (hfresh t' ht' hr i hi t ht)
    subst hsame
    generalize hout : w.revise s raw offered t' = out at hu
    have hrevised := revised w s raw offered t'
    rw [hout] at hrevised
    cases hrevised with
    | kept => exact absurd (List.mem_singleton.1 hu) hne
    | noted question hasked hrows hfailed =>
      rw [List.mem_singleton.1 hu]
      exact ⟨hasked, .inr ⟨hfailed, hrows, rfl⟩⟩
    | answered row hasked hrow => exact ⟨hasked, .inl ⟨row, hrow⟩⟩
    | replaced hr =>
      obtain ⟨i, hi, rfl⟩ := List.mem_mapIdx.1 hu
      exact absurd hid.symm (hfresh t' ht hr i hi t' ht)
    | settled => cases hu
  · intro t ht hgone
    refine ⟨raw, offered, rfl, htopics, ?_⟩
    have hmem : ∀ u ∈ w.revise s raw offered t, u ∈ (w.accept s raw).topics := by
      intro u hu
      rw [hresult]
      exact List.mem_flatMap.2 ⟨t, ht, hu⟩
    generalize hout : w.revise s raw offered t = out at hmem
    have hrevised := revised w s raw offered t
    rw [hout] at hrevised
    cases hrevised with
    | kept => exact absurd rfl (hgone t (hmem t (List.mem_singleton_self _)))
    | noted question =>
      have hnoted := hmem _ (List.mem_singleton_self _)
      exact (hgone _ hnoted rfl).elim
    | answered row =>
      have hanswered := hmem _ (List.mem_singleton_self _)
      exact (hgone _ hanswered (answered_retryId t row)).elim
    | replaced hr =>
      simp only [State.replaced, Bool.and_eq_true, Bool.not_eq_true', List.isEmpty_eq_false_iff] at hr
      refine ⟨hr.1.1, hr.1.2, .inl ⟨hr.2, fun i row hrow => hmem _ ?_⟩⟩
      obtain ⟨hi, rfl⟩ := List.getElem?_eq_some_iff.1 hrow
      exact List.mem_mapIdx.2 ⟨i, hi, rfl⟩
    | settled hs =>
      obtain ⟨hasked, hdiscovery, hnone, hreviewed⟩ := reviewed_of_settled hs
      exact ⟨hasked, hdiscovery, .inr ⟨hnone, hreviewed⟩⟩

/-- A call that is no response, and keeps every topic's id. -/
theorem Kept.others {call : Call} {s' : State} (hcall : ∀ raw, call = .accept raw → raw.topics = none ∨ s.topics = [])
    (hunasked : (s.topics.filter fun t => !s.asked t.retryId).Sublist s'.topics)
    (hids : ∀ t ∈ s.topics, ∃ u ∈ s'.topics, u.retryId = t.retryId) : Kept w s call s' := by
  refine ⟨hunasked, ?_, ?_⟩
  · intro raw offered hraw htopics t ht
    rcases hcall raw hraw with hnone | hnil
    · rw [hnone] at htopics
      cases htopics
    · rw [hnil] at ht
      cases ht
  · intro t ht hgone
    obtain ⟨u, hu, hid⟩ := hids t ht
    exact absurd hid (hgone u hu)

theorem prefix_cover (topics : List ClassificationTopic) (passageIds : List Units) :
    topics <+: passageIds.foldl w.cover topics := by
  induction passageIds generalizing topics with
  | nil => exact List.prefix_refl _
  | cons passageId passageIds ih =>
    refine List.IsPrefix.trans ?_ (ih (w.cover topics passageId))
    unfold Window.cover
    split
    next => exact List.prefix_refl _
    next =>
      split
      next => exact List.prefix_refl _
      next => exact List.prefix_append _ _

theorem Kept.step {call : Call} (h : Distinct s.topics) (hfresh : w.Fresh s call) : Kept w s call (w.step s call) := by
  cases call with
  | input => exact .others nofun List.filter_sublist fun t ht => ⟨t, ht, rfl⟩
  | accept raw =>
    show Kept w s (.accept raw) (w.accept s raw)
    rcases htopics : raw.topics with _ | offered
    · rw [accept_legacy s htopics]
      refine .others (fun raw' hraw => .inl ?_) List.filter_sublist fun t ht => ⟨t, ht, rfl⟩
      cases hraw
      exact htopics
    · rcases hcurrent : s.current with _ | current
      · have hnil := topics_of_none hcurrent
        refine .others (fun _ _ => .inr hnil) ?_ ?_
        · rw [hnil]
          exact List.nil_sublist _
        · rw [hnil]
          exact fun _ ht => absurd ht List.not_mem_nil
      · exact .accepted h hcurrent htopics hfresh
  | coveragePending passageIds =>
    have hkept : s.topics.Sublist (w.coveragePending s passageIds).topics := by
      rcases topics_coveragePending (w := w) s passageIds with heq | heq
      · rw [heq]
        exact (prefix_cover _ _).sublist
      · rw [heq]
    exact .others nofun (List.filter_sublist.trans hkept) fun t ht => ⟨t, hkept.mem ht, rfl⟩
  | unavailable message =>
    have htopics := topics_unavailable s message
    refine .others nofun ?_ fun t ht => ?_
    · show List.Sublist _ (s.unavailable message).topics
      rw [htopics, List.map_eq_flatMap]
      refine filter_sublist_flatMap fun t ht => ?_
      rw [(excused_eq s _ t).2 (by simpa using ht)]
    · exact ⟨s.excused (reasonOf message) t, htopics ▸ List.mem_map_of_mem ht, excused_retryId s _ t⟩

/-! ## Runs -/

/-- The calls of a run are made in states where they are fresh. -/
def Window.FreshRun (w : Window) : State → List Call → Prop
  | _, [] => True
  | s, call :: calls => w.Fresh s call ∧ w.FreshRun (w.step s call) calls

theorem FreshRun.split {pre post : List Call} (h : w.FreshRun s (pre ++ post)) :
    w.FreshRun s pre ∧ w.FreshRun (w.run s pre) post := by
  induction pre generalizing s with
  | nil => exact ⟨trivial, h⟩
  | cons call pre ih =>
    obtain ⟨hcall, hrest⟩ := h
    obtain ⟨hpre, hpost⟩ := ih hrest
    exact ⟨⟨hcall, hpre⟩, hpost⟩

theorem Distinct.run {calls : List Call} (h : Distinct s.topics) (hfresh : w.FreshRun s calls) :
    Distinct (w.run s calls).topics := by
  induction calls generalizing s with
  | nil => exact h
  | cons call calls ih => exact ih (h.step hfresh.1) hfresh.2

/-- **The retry bookkeeping.** As long as no response gives a row an id that a topic has already, the ids of the topics
stay distinct, and every call keeps what it is not about. -/
theorem decisions_kept (w : Window) {prior : List ClassificationTopic} {calls : List Call}
    (hprior : (prior.mapIdx fun index topic => topic.retryId.getD (w.id index)).Nodup)
    (hfresh : w.FreshRun (w.start prior) calls) :
    (∀ pre post, calls = pre ++ post → ((w.run (w.start prior) pre).topics.map (·.retryId)).Nodup) ∧
      ∀ pre call post, calls = pre ++ call :: post →
        Kept w (w.run (w.start prior) pre) call (w.step (w.run (w.start prior) pre) call) := by
  have hstart := Distinct.start hprior
  constructor
  · rintro pre post rfl
    exact (hstart.run (FreshRun.split hfresh).1).nodup
  · rintro pre call post rfl
    obtain ⟨hpre, hpost⟩ := FreshRun.split hfresh
    exact .step (hstart.run hpre) hpost.1

instance (call : Call) : Decidable (w.Fresh s call) := by
  unfold Window.Fresh
  split
  · split <;> infer_instance
  · infer_instance

instance decidableFreshRun : ∀ (s : State) (calls : List Call), Decidable (w.FreshRun s calls)
  | _, [] => isTrue trivial
  | s, call :: calls =>
    have := decidableFreshRun (w.step s call) calls
    inferInstanceAs (Decidable (_ ∧ _))

/-- A window of one passage; its id is the only text that is hashed. -/
def onePassage : Window where
  unicode := .ascii
  digest := fun _ => text "148de9c5a7a44d19e56cd9ae"
  content := text "Mina waters"
  sourceRange := some ⟨0, 11⟩
  sourcePassages := some [{ id := text "p", start := 0, stop := 11, text := text "Mina waters" }]

/-- A row that quotes nothing. -/
def unquoted (id : Units) : ClassificationTopic where
  topic := text "Watering"
  summary := text "Watering"
  confidence := zero
  disposition := .needsClarification
  retryId := some id

def response (topics : List ClassificationTopic) : Classification where
  topics := some topics
  confidence := zero
  summary := text "Garden"

def coverage : Units := onePassage.coverageId (text "p")

/-- A passage is found uncovered, its placeholder is asked for and a row takes its place. -/
def discovered : List Call :=
  [.coveragePending [text "p"], .input, .accept (response [unquoted coverage])]

theorem discovered_kept : ((onePassage.run (onePassage.start []) (.accept (response []) :: discovered)).topics.map
    (·.retryId)).Nodup :=
  (@decisions_kept onePassage [] (.accept (response []) :: discovered) (by decide)
    (by decide +kernel)).1 _ [] (List.append_nil _).symm

def askedOnce : State := onePassage.run (onePassage.start []) [.accept (response [unquoted []]), .input]

def foundTwice : State := onePassage.run (onePassage.start []) (.accept (response []) :: (discovered ++ discovered))

/-- A failed topic that was asked for and has no row is changed in its question; and a passage found uncovered once more
gives its row the id of the first one. -/
theorem unaddressed_noted :
    (∃ t ∈ askedOnce.topics, candidates [] t = [] ∧ (onePassage.accept askedOnce (response [])).topics.map (·.question) =
      [some (noted t.question (text "classification_retry_decision_missing"))]) ∧
    foundTwice.topics.map (·.retryId) = [some (coverage ++ text "_0"), some (coverage ++ text "_0")] := by
  decide +kernel

end Zenod.Decisions
