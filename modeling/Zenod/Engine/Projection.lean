/-
Projection of facts (`engine/temporalFacts.ts`): the records of a note as they
stand on a day, each checked against the evidence it cites. `settle` is the
two loops that mark superseded facts and conflicts, over the mutable fields of
the facts by position (`Marks`).

`settle_eq`: what the loops leave of a fact depends on the fact and on the
facts beside it, not on their order.
-/
import Zenod.Engine.EntrySelection

namespace Zenod.Engine

open Text Vault
open Evidence (MemoryEntry Moment todayString)

structure FactReadInput where
  path : Text
  key : Option Text := none
  asOf : Option Text := none

inductive FactStatus | active | superseded | conflict | undated | future | unsupported
deriving DecidableEq, Repr

inductive ViewMode | current | historical
deriving DecidableEq

structure VaultSourceRef where
  path : Text
  url : Text
  provider : VaultProvider
  revisionId : Option Text
  githubUrl : Option Text
deriving DecidableEq

structure ViewFact extends MemoryFact where
  status : FactStatus
  source : Option VaultSourceRef
deriving DecidableEq

/-- Prior text of a note, and the evidence it was corrected by. -/
structure PriorStatement extends LegacyStatementHistory where
  supersededByEvidenceRef : Text
deriving DecidableEq

structure FactView where
  path : Text
  key : Option Text
  asOf : Text
  mode : ViewMode
  complete : Bool
  legacy : Bool
  facts : List ViewFact
  warnings : List Text
  priorStatements : List PriorStatement

variable (lib : Library)

def supportsCorrection (fact target : MemoryFact) : Bool :=
  (fact.correctionQuote.filter (· ≠ [])).any fun quote =>
    if (fact.supersedesIds.getD []).contains target.id then targetedCorrection lib quote fact.statement
    else directionalCorrection lib quote target.statement fact.statement

/-! ## The records of a query -/

/-- The valid records, each with the value it is read from. -/
def records (metadata : Option Value) : List (MemoryFact × Value) :=
  match metadata with
  | some (.list items) => items.filterMap fun v => (readFact lib v).map fun fact => (fact, v)
  | _ => []

def normalizedKey (key : Text) : Text := lib.toLowerCase (trim key)

def selectedRecords (input : FactReadInput) (metadata : Option Value) : List (MemoryFact × Value) :=
  (records lib metadata).filter fun r => input.key.all fun key => r.1.key = normalizedKey lib key

/-- The records that fit the budget, behind some that take so many places and characters. -/
def bounded : Nat → Nat → List (MemoryFact × Value) → List MemoryFact
  | _, _, [] => []
  | count, bytes, (fact, raw) :: rest =>
    let bytes := bytes + utf16Length raw.json
    if 32 ≤ count ∨ 24000 < bytes then [] else fact :: bounded (count + 1) bytes rest

def malformed (metadata : Option Value) : Bool :=
  match metadata with
  | none => false
  | some (.list items) => items.length ≠ (records lib metadata).length
  | some _ => true

/-! ## Facts and their evidence -/

def supportedBy (entry : CatalogEntry) (fact : MemoryFact) : Bool :=
  includes entry.content fact.statement &&
    (match fact.effectiveDate.filter (· ≠ []) with
      | none => true
      | some day => (fact.effectiveDateQuote.filter (· ≠ [])).any fun quote =>
          includes entry.content quote && explicitEffectiveDate lib (some quote) fact.statement day) &&
    (fact.correctionQuote.filter (· ≠ [])).all (includes entry.content ·)

def initialStatus (asOf : Text) (mode : ViewMode) (supported : Bool) (fact : MemoryFact) : FactStatus :=
  if supported = false then .unsupported
  else if (fact.effectiveDate.filter (· ≠ [])).any (precedes asOf ·) then .future
  else if mode = .historical ∧ fact.effectiveDate.filter (· ≠ []) = none then .undated
  else .active

/-- A record as its evidence bears it out. -/
def viewFact (readEvidence : Text → Option CatalogEntry) (asOf : Text) (mode : ViewMode) (fact : MemoryFact) : ViewFact :=
  let entry := readEvidence fact.evidenceRef
  let supported := entry.any fun e => supportedBy lib e fact
  { fact with
    origin := (entry.map fun e => evidenceOrigin lib e.toMemoryEntry).getD .userReport
    verificationQuote := entry.bind fun e =>
      verificationScope lib fact.verificationQuote fact.statement e.toMemoryEntry e.content
    evidenceDate := (entry.map (·.capturedAt)).filter lib.isDate
    status := initialStatus asOf mode supported fact
    source := if supported then entry.map fun e => {
        path := e.evidenceRef, url := e.url, provider := e.provider
        revisionId := e.revisionId.filter (· ≠ []), githubUrl := e.githubUrl.filter (· ≠ []) }
      else none }

def priorStatements (input : FactReadInput) (facts : List ViewFact) : List PriorStatement :=
  facts.filterMap fun fact =>
    if fact.status = .unsupported then none
    else (fact.legacySupersedes.filter fun h => h.path = input.path ∧
        (fact.correctionQuote.filter (· ≠ [])).any fun quote => targetedCorrection lib quote fact.statement).map
      fun h => { h with supersededByEvidenceRef := fact.evidenceRef }

/-! ## The loops -/

/-- What the loops write, by the position of the fact. -/
structure Marks where
  unresolved : Nat → Bool
  status : Nat → FactStatus

def Marks.start (facts : List ViewFact) : Marks where
  unresolved i := (facts[i]?.map (·.unresolvedCorrection)).getD false
  status i := (facts[i]?.map (·.status)).getD .unsupported

/-- `facts[i].unresolvedCorrection = true`. -/
def Marks.leaveUnresolved (m : Marks) (i : Nat) : Marks := { m with unresolved := Function.update m.unresolved i true }

/-- `facts[i].status = status`. -/
def Marks.setStatus (m : Marks) (i : Nat) (status : FactStatus) : Marks :=
  { m with status := Function.update m.status i status }

/-- A persisted edge leads nowhere, or to a fact that the correction does not bear on. -/
def losesEdge (facts : List ViewFact) (fact : ViewFact) : Bool :=
  fact.supersedes.any fun id =>
    match facts.find? (·.id = id) with
    | none => true
    | some target => !supportsCorrection lib fact.toMemoryFact target.toMemoryFact

/-- Both have an effective date, and the first one is earlier. -/
def predates (fact target : MemoryFact) : Bool :=
  (fact.effectiveDate.filter (· ≠ [])).any fun day => (target.effectiveDate.filter (· ≠ [])).any fun other => precedes day other

/-- The loop leaves the target as it is. -/
def passesOver (unresolved : Bool) (fact target : ViewFact) : Bool :=
  unresolved || !fact.supersedes.contains target.id || fact.id == target.id || fact.key != target.key ||
    fact.origin != target.origin || !supportsCorrection lib fact.toMemoryFact target.toMemoryFact ||
    (!(fact.supersedesIds.getD []).contains target.id && !fact.supersedesQuotes.contains target.statement) ||
    predates fact.toMemoryFact target.toMemoryFact

/-- One turn of the first loop. -/
def applyCorrection (facts : List ViewFact) (eligible : List (ViewFact × Nat)) (m : Marks) (e : ViewFact × Nat) : Marks :=
  let m := if losesEdge lib facts e.1 then m.leaveUnresolved e.2 else m
  eligible.foldl (fun m target =>
    if passesOver lib (m.unresolved e.2) e.1 target.1 then m else m.setStatus target.2 .superseded) m

/-- Another fact that is not superseded says something else. -/
def disputed (eligible : List (ViewFact × Nat)) (m : Marks) (fact : ViewFact) : Bool :=
  eligible.any fun other => other.1.id != fact.id && m.status other.2 != .superseded && other.1.key == fact.key &&
    other.1.origin == fact.origin && other.1.statement != fact.statement

/-- One turn of the second loop. -/
def reportConflict (eligible : List (ViewFact × Nat)) (m : Marks) (e : ViewFact × Nat) : Marks :=
  if e.1.reportedConflict || m.unresolved e.2 || disputed eligible m e.1 then m.setStatus e.2 .conflict else m

def settle (facts : List ViewFact) : List ViewFact :=
  let eligible := facts.zipIdx.filter (·.1.status = .active)
  let m := eligible.foldl (applyCorrection lib facts eligible) (Marks.start facts)
  let m := (eligible.filter fun e => m.status e.2 = .active).foldl (reportConflict eligible) m
  facts.zipIdx.map fun e => { e.1 with unresolvedCorrection := m.unresolved e.2, status := m.status e.2 }

/-! ## The view -/

def invalidAsOf : Text := "asOf must be a real YYYY-MM-DD date".toList

def legacyWarning : Text :=
  "Prior legacy statements are preserved from the recorded repository revision/content hash. Their original Log evidence and effective dates are unknown; they are note history, not independently verified historical facts.".toList

def reportWarning : Text :=
  "Memory reports are not live verification. Verification quotes describe only the stated test, environment and date; no deployment or present health is inferred. An absent fix record never proves that a bug remains unfixed.".toList

def historicalWarning : Text :=
  "This reconstructs explicitly stated effective dates using evidence available now; it does not claim these facts were known at that earlier time.".toList

def unstructuredWarning : Text :=
  "Legacy or unstructured note: effective dates, correction relations and verification scope are unknown. Read its original evidence; do not assume its prose is current.".toList

def partialWarning : Text :=
  "Partial: the 32-record / 24,000-character metadata budget was exceeded or malformed records exist. Narrow to an exact key, or read the note metadata and original evidence directly. This projection cannot establish a complete current state or absence.".toList

def unsupportedWarning : Text :=
  "Some records lack readable matching immutable evidence and cannot support an answer.".toList

def undatedWarning : Text := "Undated claims cannot establish the requested historical state.".toList

/-- The facts of a query, before the loops. -/
def initialFacts (input : FactReadInput) (metadata : Option Value) (now : Moment)
    (readEvidence : Text → Option CatalogEntry) : List ViewFact :=
  (bounded 0 0 (selectedRecords lib input metadata)).map
    (viewFact lib readEvidence (input.asOf.getD (todayString now)) (if input.asOf.isSome then .historical else .current))

def projectFacts (input : FactReadInput) (metadata : Option Value) (now : Moment)
    (readEvidence : Text → Option CatalogEntry) : Except Text FactView := do
  if input.asOf.any (validFactDate · = false) then throw invalidAsOf
  let selected := selectedRecords lib input metadata
  let mode : ViewMode := if input.asOf.isSome then .historical else .current
  let complete := (bounded 0 0 selected).length = selected.length && !malformed lib metadata
  let legacy := (records lib metadata).isEmpty
  let initial := initialFacts lib input metadata now readEvidence
  let history := priorStatements lib input initial
  let facts := settle lib initial
  let warnings :=
    (if history ≠ [] then [legacyWarning] else []) ++ [reportWarning] ++
      (if mode = .historical then [historicalWarning] else []) ++ (if legacy then [unstructuredWarning] else []) ++
      (if complete then [] else [partialWarning]) ++
      (if facts.any (·.status = .unsupported) then [unsupportedWarning] else []) ++
      (if facts.any (·.status = .undated) then [undatedWarning] else [])
  return {
    path := input.path, key := input.key.map (normalizedKey lib), asOf := input.asOf.getD (todayString now), mode := mode
    complete := complete, legacy := legacy, facts := facts, warnings := warnings, priorStatements := history }

/-! ## What the loops leave -/

/-- The first fact supersedes the second. -/
def corrects (facts : List ViewFact) (fact target : ViewFact) : Bool :=
  decide (fact.status = .active) && !losesEdge lib facts fact && !passesOver lib fact.unresolvedCorrection fact target

def leftUnresolved (facts : List ViewFact) (fact : ViewFact) : Bool :=
  fact.unresolvedCorrection || (decide (fact.status = .active) && losesEdge lib facts fact)

def isSuperseded (facts : List ViewFact) (fact : ViewFact) : Bool :=
  decide (fact.status = .active) && facts.any (corrects lib facts · fact)

def isDisputed (facts : List ViewFact) (fact : ViewFact) : Bool :=
  facts.any fun other => decide (other.status = .active) && other.id != fact.id && !isSuperseded lib facts other &&
    other.key == fact.key && other.origin == fact.origin && other.statement != fact.statement

def settledStatus (facts : List ViewFact) (fact : ViewFact) : FactStatus :=
  if fact.status ≠ .active then fact.status
  else if isSuperseded lib facts fact then .superseded
  else if fact.reportedConflict || leftUnresolved lib facts fact || isDisputed lib facts fact then .conflict
  else .active

def settledFact (facts : List ViewFact) (fact : ViewFact) : ViewFact :=
  { fact with unresolvedCorrection := leftUnresolved lib facts fact, status := settledStatus lib facts fact }

variable {lib}
variable {facts : List ViewFact} {m : Marks}

/-- The first loop writes the status of its targets, and nothing else. -/
theorem foldl_targets (targets : List (ViewFact × Nat)) (m : Marks) (fact : ViewFact) (i : Nat) :
    (targets.foldl (fun m target => if passesOver lib (m.unresolved i) fact target.1 then m
      else m.setStatus target.2 .superseded) m).unresolved = m.unresolved ∧
    ∀ j, (targets.foldl (fun m target => if passesOver lib (m.unresolved i) fact target.1 then m
      else m.setStatus target.2 .superseded) m).status j =
      if ∃ target ∈ targets, target.2 = j ∧ passesOver lib (m.unresolved i) fact target.1 = false then .superseded
      else m.status j := by
  induction targets generalizing m with
  | nil => exact ⟨rfl, fun j => (if_neg (by simp)).symm⟩
  | cons t targets ih =>
    rw [List.foldl_cons]
    by_cases hpass : passesOver lib (m.unresolved i) fact t.1 = true
    · rw [if_pos hpass]
      refine ⟨(ih m).1, fun j => ?_⟩
      rw [(ih m).2 j]
      simp only [List.mem_cons, exists_eq_or_imp, hpass, Bool.true_eq_false, and_false, false_or]
    · rw [if_neg hpass]
      have hunresolved : (m.setStatus t.2 .superseded).unresolved = m.unresolved := rfl
      refine ⟨(ih _).1.trans hunresolved, fun j => ?_⟩
      rw [(ih _).2 j, hunresolved]
      by_cases hj : t.2 = j
      · have hstatus : (m.setStatus t.2 .superseded).status j = .superseded := by
          rw [← hj]
          exact Function.update_self ..
        rw [hstatus, ite_self, if_pos ⟨t, List.mem_cons_self, hj, by simpa using hpass⟩]
      · have hstatus : (m.setStatus t.2 .superseded).status j = m.status j := Function.update_of_ne (Ne.symm hj) ..
        rw [hstatus]
        simp only [List.mem_cons, exists_eq_or_imp, hj, false_and, false_or]

/-- The marks when the first loop has dealt with some of the facts. -/
structure Corrected (lib : Library) (facts : List ViewFact) (done : List (ViewFact × Nat)) (m : Marks) : Prop where
  unresolved : ∀ i f, facts[i]? = some f →
    m.unresolved i = (f.unresolvedCorrection || (decide ((f, i) ∈ done) && losesEdge lib facts f))
  status : ∀ j g, facts[j]? = some g →
    m.status j = if g.status = .active ∧ ∃ e ∈ done, corrects lib facts e.1 g = true then .superseded else g.status

/-- The facts the loops run over, with their positions. -/
def eligibleFacts (facts : List ViewFact) : List (ViewFact × Nat) := facts.zipIdx.filter (·.1.status = .active)

theorem mem_eligibleFacts {e : ViewFact × Nat} : e ∈ eligibleFacts facts ↔ facts[e.2]? = some e.1 ∧ e.1.status = .active := by
  unfold eligibleFacts
  rw [List.mem_filter, List.mem_zipIdx_iff_getElem?, decide_eq_true_eq]

theorem corrected_start : Corrected lib facts [] (Marks.start facts) where
  unresolved i f hf := by simp [Marks.start, hf]
  status j g hg := by simp [Marks.start, hg]

theorem passesOver_or (a b : Bool) (fact target : ViewFact) :
    passesOver lib (a || b) fact target = (b || passesOver lib a fact target) := by
  unfold passesOver
  cases b
  · rw [Bool.or_false, Bool.false_or]
  · simp only [Bool.or_true, Bool.true_or]

/-- **One turn of the first loop.** -/
theorem Corrected.step {done : List (ViewFact × Nat)} {e : ViewFact × Nat} (h : Corrected lib facts done m)
    (he : e ∈ eligibleFacts facts) : Corrected lib facts (done ++ [e]) (applyCorrection lib facts (eligibleFacts facts) m e) := by
  obtain ⟨hposition, hactive⟩ := mem_eligibleFacts.1 he
  -- The marks when the edges of the fact are revalidated.
  generalize hm' : (if losesEdge lib facts e.1 then m.leaveUnresolved e.2 else m) = m'
  have hstatus' : m'.status = m.status := by
    rw [← hm']
    split <;> rfl
  have hother : ∀ i, i ≠ e.2 → m'.unresolved i = m.unresolved i := by
    intro i hi
    rw [← hm']
    split
    next => exact Function.update_of_ne hi ..
    next => rfl
  have hself : m'.unresolved e.2 = (e.1.unresolvedCorrection || losesEdge lib facts e.1) := by
    rw [← hm']
    split
    next hlost =>
      rw [hlost, Bool.or_true]
      exact Function.update_self ..
    next hlost => rw [h.unresolved e.2 e.1 hposition, Bool.eq_false_iff.2 hlost, Bool.and_false]
  obtain ⟨hunresolved, hstatus⟩ := @foldl_targets lib (eligibleFacts facts) m' e.1 e.2
  have happly : applyCorrection lib facts (eligibleFacts facts) m e =
      (eligibleFacts facts).foldl (fun m target => if passesOver lib (m.unresolved e.2) e.1 target.1 then m
        else m.setStatus target.2 .superseded) m' := by
    rw [← hm']
    rfl
  rw [happly]
  constructor
  · intro i f hf
    rw [hunresolved]
    by_cases hi : i = e.2
    · subst hi
      obtain rfl : e.1 = f := Option.some.inj (hposition.symm.trans hf)
      rw [hself]
      simp
    · have hne : (f, i) ≠ e := fun heq => hi (congrArg Prod.snd heq)
      rw [hother i hi, h.unresolved i f hf]
      simp [hne]
  · intro j g hg
    rw [hstatus j, hstatus', h.status j g hg, hself]
    have hcorrects : corrects lib facts e.1 g = true ↔
        passesOver lib (e.1.unresolvedCorrection || losesEdge lib facts e.1) e.1 g = false := by
      unfold corrects
      rw [passesOver_or, decide_eq_true hactive]
      simp
    have htarget : (∃ target ∈ eligibleFacts facts, target.2 = j ∧
        passesOver lib (e.1.unresolvedCorrection || losesEdge lib facts e.1) e.1 target.1 = false) ↔
        g.status = .active ∧ corrects lib facts e.1 g = true := by
      constructor
      · rintro ⟨target, htarget, rfl, hpass⟩
        obtain ⟨htarget, hstatus⟩ := mem_eligibleFacts.1 htarget
        obtain rfl : g = target.1 := Option.some.inj (hg.symm.trans htarget)
        exact ⟨hstatus, hcorrects.2 hpass⟩
      · rintro ⟨hstatus, hpass⟩
        exact ⟨(g, j), mem_eligibleFacts.2 ⟨hg, hstatus⟩, rfl, hcorrects.1 hpass⟩
    simp only [htarget, List.mem_append, List.mem_singleton, or_and_right, exists_or, exists_eq_left]
    by_cases hnow : g.status = .active ∧ corrects lib facts e.1 g = true
    · rw [if_pos hnow, if_pos ⟨hnow.1, Or.inr hnow.2⟩]
    · rw [if_neg hnow]
      refine if_congr (and_congr_right fun hg => ?_) rfl rfl
      exact ⟨Or.inl, fun h => h.resolve_right fun h => hnow ⟨hg, h⟩⟩

theorem Corrected.run {rest done : List (ViewFact × Nat)} (h : Corrected lib facts done m)
    (hrest : ∀ e ∈ rest, e ∈ eligibleFacts facts) :
    Corrected lib facts (done ++ rest) (rest.foldl (applyCorrection lib facts (eligibleFacts facts)) m) := by
  induction rest generalizing done m with
  | nil =>
    rw [List.append_nil]
    exact h
  | cons e rest ih =>
    obtain ⟨he, hrest⟩ := List.forall_mem_cons.1 hrest
    rw [List.append_cons, List.foldl_cons]
    exact ih (h.step he) hrest

/-- The marks when the second loop has dealt with some of the facts. -/
structure Reported (lib : Library) (facts : List ViewFact) (done : List (ViewFact × Nat)) (m : Marks) : Prop where
  unresolved : ∀ i f, facts[i]? = some f → m.unresolved i = leftUnresolved lib facts f
  status : ∀ j g, facts[j]? = some g → m.status j =
    if g.status = .active ∧ isSuperseded lib facts g = false ∧ (g, j) ∉ done then .active else settledStatus lib facts g

theorem exists_eligible_iff {p : ViewFact → Prop} :
    (∃ e ∈ eligibleFacts facts, p e.1) ↔ ∃ f ∈ facts, f.status = .active ∧ p f := by
  constructor
  · rintro ⟨e, he, hp⟩
    obtain ⟨hposition, hactive⟩ := mem_eligibleFacts.1 he
    exact ⟨e.1, List.mem_of_getElem? hposition, hactive, hp⟩
  · rintro ⟨f, hf, hactive, hp⟩
    obtain ⟨i, hi⟩ := List.mem_iff_getElem?.1 hf
    exact ⟨(f, i), mem_eligibleFacts.2 ⟨hi, hactive⟩, hp⟩

/-- What the first loop ends with. -/
theorem reported_start (h : Corrected lib facts (eligibleFacts facts) m) : Reported lib facts [] m where
  unresolved i f hf := by
    rw [h.unresolved i f hf]
    unfold leftUnresolved
    congr 2
    exact decide_eq_decide.2 (mem_eligibleFacts.trans ⟨fun h => h.2, fun hactive => ⟨hf, hactive⟩⟩)
  status j g hg := by
    have hany : (∃ e ∈ eligibleFacts facts, corrects lib facts e.1 g = true) ↔ facts.any (corrects lib facts · g) = true := by
      rw [List.any_eq_true]
      refine (@exists_eligible_iff facts fun f => corrects lib facts f g = true).trans ?_
      refine exists_congr fun f => and_congr_right fun _ => ⟨fun h => h.2, fun h => ⟨?_, h⟩⟩
      unfold corrects at h
      simp only [Bool.and_eq_true, decide_eq_true_eq] at h
      exact h.1.1
    rw [h.status j g hg]
    simp only [hany]
    unfold settledStatus isSuperseded
    by_cases hactive : g.status = .active
    · cases hsuperseded : facts.any (corrects lib facts · g)
      · simp [hactive]
      · simp [hactive]
    · simp [hactive]

/-- Reporting a conflict supersedes nothing. -/
theorem Reported.superseded_iff {done : List (ViewFact × Nat)} (h : Reported lib facts done m) {j : Nat} {g : ViewFact}
    (hg : facts[j]? = some g) (hactive : g.status = .active) : m.status j = .superseded ↔ isSuperseded lib facts g = true := by
  rw [h.status j g hg]
  unfold settledStatus
  cases hsuperseded : isSuperseded lib facts g
  · simp only [hactive, ne_eq, not_true_eq_false, if_false, Bool.false_eq_true, true_and, iff_false]
    split
    next => decide
    next => split <;> decide
  · simp [hactive]

theorem Reported.disputed_eq {done : List (ViewFact × Nat)} (h : Reported lib facts done m) (fact : ViewFact) :
    disputed (eligibleFacts facts) m fact = isDisputed lib facts fact := by
  rw [Bool.eq_iff_iff]
  unfold disputed isDisputed
  rw [List.any_eq_true, List.any_eq_true]
  constructor
  · rintro ⟨e, he, hother⟩
    obtain ⟨hposition, hactive⟩ := mem_eligibleFacts.1 he
    refine ⟨e.1, List.mem_of_getElem? hposition, ?_⟩
    have hsuperseded := h.superseded_iff hposition hactive
    simp only [Bool.and_eq_true, bne_iff_ne, ne_eq] at hother
    rw [hsuperseded, Bool.not_eq_true] at hother
    simp [hactive, hother]
  · rintro ⟨f, hf, hother⟩
    obtain ⟨i, hi⟩ := List.mem_iff_getElem?.1 hf
    simp only [Bool.and_eq_true, decide_eq_true_eq] at hother
    obtain ⟨⟨⟨⟨⟨hactive, hid⟩, hnot⟩, hkey⟩, horigin⟩, hstatement⟩ := hother
    have hmark : (m.status i != .superseded) = true := by
      refine bne_iff_ne.2 fun hmark => ?_
      rw [(h.superseded_iff hi hactive).1 hmark] at hnot
      cases hnot
    refine ⟨(f, i), mem_eligibleFacts.2 ⟨hi, hactive⟩, ?_⟩
    rw [hid, hmark, hkey, horigin, hstatement]
    rfl

/-- **One turn of the second loop.** -/
theorem Reported.step {done : List (ViewFact × Nat)} {e : ViewFact × Nat} (h : Reported lib facts done m)
    (he : e ∈ eligibleFacts facts) (hcurrent : isSuperseded lib facts e.1 = false) :
    Reported lib facts (done ++ [e]) (reportConflict (eligibleFacts facts) m e) := by
  obtain ⟨hposition, hactive⟩ := mem_eligibleFacts.1 he
  have hsettled : settledStatus lib facts e.1 =
      if e.1.reportedConflict || m.unresolved e.2 || disputed (eligibleFacts facts) m e.1 then .conflict else .active := by
    unfold settledStatus
    rw [if_neg (not_not.2 hactive), hcurrent, if_neg Bool.false_ne_true, h.unresolved e.2 e.1 hposition, h.disputed_eq]
  have hself : (reportConflict (eligibleFacts facts) m e).status e.2 = settledStatus lib facts e.1 := by
    rw [hsettled]
    unfold reportConflict
    split
    next => exact Function.update_self ..
    next hnone =>
      rw [if_neg hnone] at hsettled
      rw [h.status e.2 e.1 hposition, hsettled]
      exact ite_self _
  have hother : ∀ j, j ≠ e.2 → (reportConflict (eligibleFacts facts) m e).status j = m.status j := by
    intro j hj
    unfold reportConflict
    split
    next => exact Function.update_of_ne hj ..
    next => rfl
  constructor
  · intro i f hf
    have hunresolved : (reportConflict (eligibleFacts facts) m e).unresolved = m.unresolved := by
      unfold reportConflict
      split <;> rfl
    rw [hunresolved]
    exact h.unresolved i f hf
  · intro j g hg
    by_cases hj : j = e.2
    · subst hj
      obtain rfl : e.1 = g := Option.some.inj (hposition.symm.trans hg)
      rw [hself, if_neg fun hdone => hdone.2.2 (List.mem_append_right _ (List.mem_singleton.2 rfl))]
    · have hdone : (g, j) ∉ done ++ [e] ↔ (g, j) ∉ done := by
        have hne : (g, j) ≠ e := fun heq => hj (congrArg Prod.snd heq)
        simp [hne]
      rw [hother j hj, h.status j g hg]
      simp only [hdone]

theorem Reported.run {rest done : List (ViewFact × Nat)} (h : Reported lib facts done m)
    (hrest : ∀ e ∈ rest, e ∈ eligibleFacts facts ∧ isSuperseded lib facts e.1 = false) :
    Reported lib facts (done ++ rest) (rest.foldl (reportConflict (eligibleFacts facts)) m) := by
  induction rest generalizing done m with
  | nil =>
    rw [List.append_nil]
    exact h
  | cons e rest ih =>
    obtain ⟨he, hrest⟩ := List.forall_mem_cons.1 hrest
    rw [List.append_cons, List.foldl_cons]
    exact ih (h.step he.1 he.2) hrest

/-- **What the loops leave of a fact** is told by the fact and the facts beside it. -/
theorem settle_eq (lib : Library) (facts : List ViewFact) : settle lib facts = facts.map (settledFact lib facts) := by
  have hfirst := (@corrected_start lib facts).run fun e he => he
  rw [List.nil_append] at hfirst
  have hstart := reported_start hfirst
  generalize hm : (eligibleFacts facts).foldl (applyCorrection lib facts (eligibleFacts facts)) (Marks.start facts) = m at hfirst hstart
  have hcurrent : ∀ e ∈ (eligibleFacts facts).filter (fun e => m.status e.2 = .active),
      e ∈ eligibleFacts facts ∧ isSuperseded lib facts e.1 = false := by
    intro e he
    obtain ⟨he, hstatus⟩ := List.mem_filter.1 he
    obtain ⟨hposition, hactive⟩ := mem_eligibleFacts.1 he
    refine ⟨he, Bool.eq_false_iff.2 fun hsuperseded => ?_⟩
    rw [decide_eq_true_eq, (hstart.superseded_iff hposition hactive).2 hsuperseded] at hstatus
    cases hstatus
  have hdone := hstart.run hcurrent
  have hsettle : settle lib facts = facts.zipIdx.map fun e => { e.1 with
      unresolvedCorrection := (((eligibleFacts facts).filter fun e => m.status e.2 = .active).foldl
        (reportConflict (eligibleFacts facts)) m).unresolved e.2
      status := (((eligibleFacts facts).filter fun e => m.status e.2 = .active).foldl
        (reportConflict (eligibleFacts facts)) m).status e.2 } := by
    rw [← hm]
    rfl
  rw [hsettle]
  refine List.ext_getElem? fun i => ?_
  rw [List.getElem?_map, List.getElem?_map, List.getElem?_zipIdx]
  cases hf : facts[i]? with
  | none => rfl
  | some f =>
    have hstatus := hdone.status i f hf
    rw [if_neg ?_] at hstatus
    · simp only [Option.map_some, Nat.zero_add, hstatus, hdone.unresolved i f hf]
      rfl
    · rintro ⟨hactive, hsuperseded, hmissing⟩
      -- A fact that is still active when the second loop starts is one of those it runs over.
      have hmark : m.status i = .active := by
        rw [hstart.status i f hf]
        exact if_pos ⟨hactive, hsuperseded, List.not_mem_nil⟩
      exact hmissing (List.mem_filter.2 ⟨mem_eligibleFacts.2 ⟨hf, hactive⟩, decide_eq_true hmark⟩)

end Zenod.Engine
