/-
`applyReconciliation`: every operation of the model is checked against the
source and the page as it was, groups of operations that share an idea, a
target or a claim take effect together or not at all, and what they buffered
is written into the page at the end.
-/
import Zenod.Engine.Reconciliation
import Zenod.Lib.Insert
import Zenod.Lib.UnionFind

namespace Zenod.Engine

open Text Vault
open Evidence (MemoryEntry)
open UnionFind (groupsOf)

/-! ## What is buffered -/

structure Progress where
  edits : MapOf Edit := []
  additions : List Text := []
  proposals : List FactProposal := []
  /-- The quotes that bear out the proposals. -/
  support : List Text := []
  covered : List Text := []
  seen : List Text := []
  effects : List Text := []
  appliedOperationIds : List Text := []
  appliedOperations : List AppliedOperation := []
  pending : List PendingItem := []

def Progress.fail (p : Progress) (sourceIds ideaIds : List Text) (reason : String) : Progress :=
  { p with pending := p.pending ++ [{ sourceIds := sourceIds, ideaIds := ideaIds, reason := reason }] }

def Progress.applied (p : Progress) (operation : AppliedOperation) : Progress :=
  { p with
    appliedOperationIds := p.appliedOperationIds ++ [operation.id]
    appliedOperations := p.appliedOperations ++ [operation] }

/-- What an operation of a group has decided about a quote or a target. -/
structure Decision where
  kind : OperationKind
  targetId : Option Text
  statement : Text
  replacement : Option Text
  correction : Option Text
deriving DecidableEq

variable (lib : Library) (prepared : Prepared)

/-! ## Ideas and sources of an operation -/

def Prepared.isCompleted (id : Text) : Bool := prepared.input.completedIdeaIds.contains id

def assignedIdeas (operation : ReconciliationOperation) : List Text :=
  (operation.ideaIds.getD
    (if prepared.input.ideas.isSome then []
    else (prepared.ideas.filter fun idea => idea.sourceIds.any operation.sourceIds.contains).map (·.id))).eraseDups

/-- The table an operation's source ids refer to. -/
def sourceTable (kind : OperationKind) : List ReconciliationSource :=
  if kind = .add then prepared.request.addCandidates.map (·.toReconciliationSource) else prepared.request.sources

/-- The sources of some ids, none when one is unknown. -/
def lookupSources (kind : OperationKind) (ids : List Text) : Option (List ReconciliationSource) :=
  ids.mapM fun id => (sourceTable prepared kind).find? (·.id = id)

/-- An `add` operation's contributions: one for each candidate, or why it is rejected. -/
def expandOperation (operation : ReconciliationOperation) : List (ReconciliationOperation × Option String) :=
  if operation.kind ≠ .add then [(operation, none)]
  else
    let ideaIds := assignedIdeas prepared operation
    let selected := operation.sourceIds.eraseDups.map fun id => prepared.request.addCandidates.find? (·.id = id)
    let chosen := selected.filterMap id
    let failure : Option String :=
      match ideaIds.find? prepared.omittedAddCandidatesByIdea.has with
      | some id => prepared.omittedAddCandidatesByIdea.get id
      | none =>
        if selected = [] ∨ selected.any (·.isNone) then some "add_candidate_unavailable"
        else if ideaIds = [] ∨
            (ideaIds.any fun id => !prepared.request.ideas.any (·.id = id) || !chosen.any (·.ideaIds.contains id)) ∨
            (chosen.any fun c => !c.ideaIds.any ideaIds.contains) then some "add_candidate_idea_mismatch"
        else none
    match failure with
    | some reason => [(operation, some reason)]
    | none =>
      chosen.map fun c =>
        ({ operation with ideaIds := some ideaIds, sourceIds := [c.id], sourceQuote := c.text }, none)

def canonical (sources : List ReconciliationSource) (quote : Text) (limit : Nat) : Option Text :=
  canonicalSourceQuote lib.unicode sources quote limit prepared.input.sourceContent

def claim (operation : ReconciliationOperation) : Option Text :=
  (lookupSources prepared operation.kind operation.sourceIds).bind fun sources =>
    canonical lib prepared sources operation.sourceQuote maxStatementChars

/-! ## Groups -/

/-- A text that is there and not empty. -/
def given (t : Option Text) : Option Text := t.filter (· ≠ [])

/-- Two operations share an idea, a target or a claim. -/
def linked (a b : ReconciliationOperation) : Bool :=
  (assignedIdeas prepared a).any (assignedIdeas prepared b).contains ||
    ((given a.targetId).isSome && a.targetId == b.targetId) ||
    ((given (claim lib prepared a)).isSome && claim lib prepared a == claim lib prepared b)

/-! ## One operation -/

/-- The source's own text for a replacement, which only a correction may have. -/
def replacementOf (operation : ReconciliationOperation) (sources : List ReconciliationSource) :
    Except String (Option Text) :=
  match given operation.replacementQuote with
  | none => pure operation.replacementQuote
  | some quote =>
    match if operation.kind = .supersede then given (canonical lib prepared sources quote maxStatementChars) else none with
    | none => throw "replacement_support_invalid"
    | some replacement => pure (some replacement)

/-- The source's own text for a correction's report; other operations keep what they came with. -/
def correctionOf (operation : ReconciliationOperation) (sources : List ReconciliationSource) :
    Except String (Option Text) :=
  match if operation.kind = .supersede then given operation.correctionQuote else none with
  | none => pure operation.correctionQuote
  | some quote =>
    match given (canonical lib prepared sources quote 2400) with
    | none => throw "correction_target_or_intent_unverified"
    | some correction => pure (some correction)

/-- The quotes of an operation replaced by the source's own text, or why it has no support. -/
def resolve (operation : ReconciliationOperation) (failure : Option String) (sourceIds ideaIds : List Text) :
    Except String (ReconciliationOperation × List ReconciliationSource) :=
  let sources := lookupSources prepared operation.kind sourceIds
  let assigned := ideaIds.all fun id => prepared.request.ideas.any fun idea =>
    idea.id = id && (operation.kind = .add || idea.sourceIds.any sourceIds.contains)
  if ideaIds.any prepared.omittedSourcesByIdea.has then throw "reconciliation_source_context_incomplete"
  else
    match failure with
    | some reason => throw reason
    | none =>
      if ideaIds = [] ∨ assigned = false then throw "idea_assignment_invalid"
      else
        match sources.filter (· ≠ []) with
        | none => throw "source_support_invalid"
        | some sources =>
          match given (canonical lib prepared sources operation.sourceQuote maxStatementChars) with
          | none => throw "source_support_invalid"
          | some sourceQuote => do
            let replacementQuote ← replacementOf lib prepared operation sources
            let correctionQuote ← correctionOf lib prepared operation sources
            pure ({ operation with
              sourceQuote := sourceQuote, replacementQuote := replacementQuote, correctionQuote := correctionQuote }, sources)

def citation : Text := citationFor prepared.input.evidence.evidenceRef

def markerOf (id : Text) : Text := "<!-- zenod-op:".toList ++ id ++ " -->".toList

/-- What a valid operation does to the page. -/
inductive Change
  /-- The page says it already. -/
  | settled
  /-- A citation behind the target, unless it is there. -/
  | link (edit : Option (Text × Edit))
  /-- A new line, with the fact it reports and what bears it out. -/
  | write (proposal : Option FactProposal) (support : List Text) (addition : Text)

/-- The new statement of an operation. -/
def statementOf (operation : ReconciliationOperation) : Text :=
  if operation.kind = .supersede then (operation.replacementQuote.or operation.correctionQuote).getD operation.sourceQuote
  else operation.sourceQuote

def targetOf (operation : ReconciliationOperation) : Option Target := (given operation.targetId).bind prepared.targets.get

/-- Why an operation cannot change the page, before its kind is looked at. -/
def targetFailure (operation : ReconciliationOperation) : Option String :=
  let statement := statementOf operation
  let isSupersede := operation.kind = .supersede
  let onTarget (p : Target → Bool) : Bool := isSupersede && (targetOf prepared operation).any p
  if maxStatementChars < utf16Length statement then some "complete_statement_exceeds_budget"
  else if onTarget fun t => retractsOther lib (operation.correctionQuote.getD []) t.text then
    some "correction_target_values_incompatible"
  else if onTarget fun t => includes t.line (citation prepared) then some "reconciliation_same_evidence_target"
  else if onTarget fun t => equivalent lib statement t.text then some "correction_new_state_unchanged"
  else if operation.kind = .add ∧ operation.targetId.isSome then some "add_target_must_be_null"
  else none

def linkChange (edits : MapOf Edit) (operation : ReconciliationOperation) (id : Text) (target : Target) :
    Except String Change :=
  if compatibleLink lib target.text operation.sourceQuote = false then throw "equivalence_not_established"
  else
    let targetId := operation.targetId.getD []
    let current := ((edits.get targetId).map (·.text)).getD target.line
    if includes current (citation prepared) then pure (.link none)
    else pure (.link (some (targetId,
      { start := target.start, stop := target.stop
        text := current ++ " ".toList ++ citation prepared ++ " ".toList ++ markerOf id })))

def knownKey (operation : ReconciliationOperation) : Option Text :=
  (operation.targetId.bind fun id => prepared.request.statements.find? (·.id = id)).bind (·.factKey)

def factKeyOf (operation : ReconciliationOperation) (ideaIds : List Text) : Option Text :=
  if operation.kind = .supersede ∨ operation.kind = .conflict then
    (knownKey prepared operation).or
      (match targetOf prepared operation with
        | some target => operation.factKey.or
            (some ("legacy.".toList ++ digest lib (.list [.str prepared.input.path, .str target.text])))
        | none => some ("report.".toList ++ digest lib (.list [.str prepared.input.path,
            .str prepared.input.evidence.evidenceRef, textValues ideaIds])))
  else operation.factKey

def legacyOf (operation : ReconciliationOperation) : Option LegacyStatementHistory :=
  if operation.kind = .supersede ∧ given (knownKey prepared operation) = none then do
    let revision ← prepared.input.repositoryRevision
    let raw ← prepared.input.raw
    let target ← targetOf prepared operation
    return { path := prepared.input.path, statement := target.text, statementId := operation.targetId.getD []
             contentHash := pageRevision lib raw, provider := revision.provider, revision := revision.id }
  else none

/-- The proposal of an operation that reports a fact under a key. -/
def proposalOf (operation : ReconciliationOperation) (sources : List ReconciliationSource) (ideaIds : List Text)
    (key : Text) : FactProposal :=
  let input := prepared.input
  let isSupersede := operation.kind = .supersede
  let classified := input.facts.find? fun fact =>
    fact.key == key && canonical lib prepared sources fact.statement maxStatementChars == some operation.sourceQuote
  let context := if operation.kind = .add then
      prepared.request.sources.filter fun s => prepared.request.ideas.any fun idea =>
        ideaIds.contains idea.id && idea.sourceIds.contains s.id
    else sources
  let supported (quote : Option Text) : Option Text := (given quote).bind fun q =>
    canonicalSourceQuote lib.unicode context q 2400 (some (input.sourceContent.getD input.evidence.content))
  let target := targetOf prepared operation
  { key := key
    statement := statementOf operation
    reportedConflict := operation.kind = .conflict
    legacySupersedes := legacyOf lib prepared operation
    effectiveDate := classified.bind (·.effectiveDate)
    effectiveDateQuote := supported (classified.bind (·.effectiveDateQuote))
    correctionQuote := if isSupersede then operation.correctionQuote else none
    supersedesQuotes := if isSupersede then (target.map (·.text)).toList else []
    supersedesIds := if isSupersede then
        some (((input.memoryFacts lib).filter fun fact => fact.key == key &&
          target.any fun t => equivalent lib (fact.renderedStatement.getD fact.statement) t.text).map (·.id))
      else none
    verificationQuote := supported (classified.bind (·.verificationQuote)) }

def Prepared.metadata : Frontmatter :=
  let input := prepared.input
  [("title".toList, .str input.title), ("type".toList, .str input.type), ("tags".toList, .list []),
    ("created".toList, .str input.today), ("updated".toList, .str input.today),
    ("summary".toList, .str (takeUnits summaryMaxChars input.title))]

/-- Whether the record of a correction would supersede something. -/
def directionVerified (proposal : FactProposal) (correction : Text) : Bool :=
  let input := prepared.input
  let seed := if (input.frontmatter lib).isSome then input.raw.getD []
    else serializeNote lib.yaml [("title".toList, .str input.title), ("type".toList, .str input.type),
      ("tags".toList, .list []), ("summary".toList, .str input.title), ("created".toList, .str input.today),
      ("updated".toList, .str input.today)] (input.body lib)
  let trial := appendMemoryFacts lib seed input.raw [proposal] input.evidence
    (proposal.statement ++ "\n\n".toList ++ correction)
  let facts := parseMemoryFacts lib ((parseNote lib.yaml trial).frontmatter.bind (·.get memoryFactsKey))
  match facts.find? fun fact => fact.evidenceRef == input.evidence.evidenceRef && fact.statement == proposal.statement with
  | none => false
  | some fact => (fact.supersedes ≠ [] || fact.legacySupersedes.isSome) && !fact.unresolvedCorrection

/-- `statement.replace(/\n/g, " ")`. -/
def flatten (statement : Text) : Text := statement.map fun c => if c = '\n' then ' ' else c

def qualifierOf : OperationKind → Text
  | .supersede => "**Correction:** ".toList
  | .conflict => "**Unresolved conflict:** ".toList
  | _ => []

def additionOf (operation : ReconciliationOperation) (id : Text) : Text :=
  "\n- ".toList ++ qualifierOf operation.kind ++ flatten (statementOf operation) ++ " ".toList ++ citation prepared ++
    " ".toList ++ markerOf id

def writeChange (operation : ReconciliationOperation) (sources : List ReconciliationSource) (ideaIds : List Text)
    (id : Text) : Except String Change :=
  let isSupersede := operation.kind = .supersede
  let key := given (factKeyOf lib prepared operation ideaIds)
  let proposal := key.map (proposalOf lib prepared operation sources ideaIds)
  if isSupersede ∧ ((given (knownKey prepared operation) = none ∧ legacyOf lib prepared operation = none) ∨
      key = none ∨ given operation.correctionQuote = none) then throw "correction_target_or_intent_unverified"
  else if isSupersede ∧ (proposal.any fun p => directionVerified lib prepared p (operation.correctionQuote.getD [])) = false then
    throw "correction_direction_unverified"
  else
    let support := match proposal with
      | none => []
      | some p => [p.statement] ++ p.correctionQuote.toList ++ (given p.effectiveDateQuote).toList ++
          (given p.verificationQuote).toList
    pure (.write proposal support (additionOf prepared operation id))

/-- What an operation with support does, or why it does nothing. -/
def changeOf (edits : MapOf Edit) (operation : ReconciliationOperation) (sources : List ReconciliationSource)
    (ideaIds : List Text) (id : Text) : Except String Change :=
  match targetFailure lib prepared operation with
  | some reason => throw reason
  | none =>
    if operation.kind = .add ∧ prepared.targets.any fun e =>
        includes e.2.line (citation prepared) && equivalent lib e.2.text (statementOf operation) then pure .settled
    else if operation.kind = .clarify then throw "reconciliation_needs_clarification"
    else
      match operation.kind, targetOf prepared operation with
      | .linkSource, some target => linkChange lib prepared edits operation id target
      | .linkSource, none => throw "statement_target_invalid"
      | .supersede, none => throw "statement_target_invalid"
      | _, some _ => writeChange lib prepared operation sources ideaIds id
      | _, none =>
        if operation.targetId.isSome then throw "statement_target_invalid"
        else writeChange lib prepared operation sources ideaIds id

def Progress.accept (p : Progress) (change : Change) (effect : Text) (isConflict : Bool) (operation : AppliedOperation) :
    Progress :=
  let p := { p with effects := addTo p.effects effect }
  match change with
  | .settled => p.applied operation
  | .link edit =>
    { p with
      edits := match edit with
        | some e => p.edits.set e.1 e.2
        | none => p.edits
      seen := addTo p.seen operation.id }.applied operation
  | .write proposal support addition =>
    let p := { p with
      proposals := p.proposals ++ proposal.toList
      support := support.foldl addTo p.support
      additions := p.additions ++ [addition]
      seen := addTo p.seen operation.id }
    (if isConflict then p.fail operation.sourceIds operation.ideaIds "conflict_retained" else p).applied operation

def Decision.value (d : Decision) : Value :=
  .map [("kind".toList, .str d.kind.text), ("targetId".toList, textOrNull d.targetId),
    ("statement".toList, .str d.statement), ("replacement".toList, textOrNull d.replacement),
    ("correction".toList, textOrNull d.correction)]

/-- Two decisions about one quote or target that cannot stand together. -/
def Decision.clashes (d prior : Decision) (onTarget : Bool) : Bool :=
  if onTarget && (prior.kind = .conflict || d.kind = .conflict) then false
  else !(prior.kind = d.kind && prior.targetId == d.targetId &&
    ((prior.statement == d.statement && prior.replacement == d.replacement && prior.correction == d.correction) ||
      d.kind = .linkSource))

/-- The keys a decision is filed under, and whether they name a target. -/
def Decision.keys (d : Decision) : List (Text × Bool) :=
  ("quote:".toList ++ d.statement, false) ::
    ((given d.targetId).map fun id => ("target:".toList ++ id, true)).toList

/-- A correction quote counts for corrections only. -/
def correctionQuoteOf (operation : ReconciliationOperation) : Option Text :=
  if operation.kind = .supersede then operation.correctionQuote else none

def decisionOf (operation : ReconciliationOperation) : Decision :=
  { kind := operation.kind, targetId := operation.targetId, statement := operation.sourceQuote
    replacement := operation.replacementQuote, correction := correctionQuoteOf operation }

/-- What the identity of an operation is the digest of. -/
def identityOf (operation : ReconciliationOperation) (sourceIds ideaIds : List Text) : Value :=
  .list [.str prepared.input.evidence.evidenceRef, textValues ideaIds, textValues sourceIds, .str operation.kind.text,
    textOrNull operation.targetId, .str operation.sourceQuote, textOrNull operation.replacementQuote,
    textOrNull (correctionQuoteOf operation)]

def clashes (claims : MapOf (List Decision)) (d : Decision) : Bool :=
  d.keys.any fun k => ((claims.get k.1).getD []).any fun prior => d.clashes prior k.2

def fileDecision (claims : MapOf (List Decision)) (d : Decision) : MapOf (List Decision) :=
  d.keys.foldl (fun m k => m.set k.1 ((m.get k.1).getD [] ++ [d])) claims

/-- An operation with support: it is done already, or does its change, or fails. -/
def decideOperation (p : Progress) (operation : ReconciliationOperation) (sources : List ReconciliationSource)
    (sourceIds ideaIds : List Text) : Progress :=
  let id := digest lib (identityOf prepared operation sourceIds ideaIds)
  let effect := digest lib (decisionOf operation).value
  let applied : AppliedOperation := { id := id, sourceIds := sourceIds, ideaIds := ideaIds }
  if includes (prepared.input.raw.getD []) (markerOf id) ∨ p.seen.contains id ∨ p.effects.contains effect then
    let p := { p with effects := addTo p.effects effect }.applied applied
    if operation.kind = .conflict then p.fail sourceIds ideaIds "conflict_retained" else p
  else
    match changeOf lib prepared p.edits operation sources ideaIds id with
    | .error reason => p.fail sourceIds ideaIds reason
    | .ok change => p.accept change effect (operation.kind = .conflict) applied

def applyOperation (state : Progress × MapOf (List Decision)) (item : ReconciliationOperation × Option String) :
    Progress × MapOf (List Decision) :=
  let (p, claims) := state
  let assigned := assignedIdeas prepared item.1
  let sourceIds := item.1.sourceIds.eraseDups
  let ideaIds := assigned.filter fun id => !prepared.isCompleted id
  if ideaIds = [] ∧ assigned.any prepared.isCompleted then state
  else
    match resolve lib prepared item.1 item.2 sourceIds ideaIds with
    | .error reason => (p.fail sourceIds ideaIds reason, claims)
    | .ok (operation, sources) =>
      let p := { p with covered := ideaIds.foldl addTo p.covered }
      let ideaIds := sort ideaIds
      let sourceIds := sort sourceIds
      let decision := decisionOf operation
      if clashes claims decision then (p.fail sourceIds ideaIds "reconciliation_incompatible_decisions", claims)
      else (decideOperation lib prepared p operation sources sourceIds ideaIds, fileDecision claims decision)

/-! ## Groups and the page -/

/-- A group takes effect when none of its operations failed; a retained conflict is no failure. -/
def runGroup (p : Progress) (group : List (ReconciliationOperation × Option String)) : Progress :=
  let ideaIds := (group.flatMap fun item => assignedIdeas prepared item.1).eraseDups.filter fun id => !prepared.isCompleted id
  let after := (group.foldl (applyOperation lib prepared) (p, [])).1
  let failures := (after.pending.drop p.pending.length).filter (·.reason ≠ "conflict_retained")
  if failures = [] then after
  else
    let reason := "; ".intercalate (failures.map (·.reason)).eraseDups
    { p with
      covered := ideaIds.foldl addTo after.covered
      pending := p.pending ++ ideaIds.map fun id =>
        { ideaIds := [id], sourceIds := ((prepared.ideas.find? (·.id = id)).map (·.sourceIds)).getD [], reason := reason } }

/-- The ideas that no operation dealt with. -/
def accountIdea (p : Progress) (idea : ReconciliationIdea) : Progress :=
  if prepared.isCompleted idea.id then p
  else
    match (prepared.omittedSourcesByIdea.get idea.id).filter (· ≠ []) with
    | some omitted =>
      if p.pending.any (·.ideaIds.contains idea.id) then
        if p.covered.contains idea.id then p
        else p.fail idea.sourceIds [idea.id] (if prepared.omittedAddCandidatesByIdea.get idea.id =
          some "add_candidate_context_incomplete" then "add_candidate_context_incomplete" else "reconciliation_idea_unassigned")
      else p.fail omitted [idea.id] "reconciliation_source_context_incomplete"
    | none =>
      if p.covered.contains idea.id then p
      else p.fail idea.sourceIds [idea.id] (if prepared.omittedAddCandidatesByIdea.get idea.id =
        some "add_candidate_context_incomplete" then "add_candidate_context_incomplete" else "reconciliation_idea_unassigned")

/-- The edits from the last one to the first. -/
def applyEdits (edits : MapOf Edit) (body : Text) : Text :=
  ((edits.map (·.2)).insertionSort fun a b => b.start ≤ a.start).foldl applyEdit body

/-- The page's text before its body. -/
def Prepared.head : Text :=
  let raw := prepared.input.raw.getD []
  raw.take (raw.length - (prepared.input.body lib).length)

/-- The frontmatter block with the facts of a reconciliation recorded. -/
def factsHead (proposals : List FactProposal) (support : List Text) (next : Text) : Text :=
  let recorded := appendMemoryFacts lib next prepared.input.raw proposals prepared.input.evidence
    (("\n\n".toList).intercalate support)
  let block := match (parseNote lib.yaml recorded).frontmatter with
    | some f => serializeNote lib.yaml f []
    | none => serializeValue lib.yaml .null []
  if (prepared.input.frontmatter lib).isSome then block.dropLast else block

def linksTail (body : Text) : Text :=
  let links := prepared.input.links
  if links ≠ [] ∧ (links.any (includes body)) = false then
    "\n\n".toList ++ (" ".toList).intercalate (links.take 3) ++ "\n".toList
  else []

def newBody (p : Progress) : Text := applyEdits p.edits (prepared.input.body lib) ++ p.additions.flatten

/-- The page with what was buffered. -/
def render (p : Progress) : Text :=
  let body := newBody lib prepared p
  let head := if (prepared.input.frontmatter lib).isSome then prepared.head lib
    else serializeNote lib.yaml prepared.metadata []
  let head := if p.proposals = [] then head else factsHead lib prepared p.proposals p.support (head ++ body)
  head ++ body ++ linksTail prepared body

def bufferedChanges (operations : List (ReconciliationOperation × Option String)) : Progress :=
  prepared.ideas.foldl (accountIdea prepared)
    ((groupsOf (fun a b => linked lib prepared a.1 b.1) operations).foldl (runGroup lib prepared) {})

def applyReconciliation (operations : List ReconciliationOperation) : ReconciliationResult :=
  let input := prepared.input
  let original := input.raw.getD []
  let expanded := operations.flatMap (expandOperation prepared)
  if startsWith original "---".toList ∧ (input.frontmatter lib).isNone then
    { content := original
      pending := [{ sourceIds := input.sources.map (·.id), ideaIds := prepared.ideas.map (·.id)
                    reason := "malformed_legacy_frontmatter" }] }
  else if 24 < operations.length ∨ 24 < expanded.length then
    { content := original
      pending := (prepared.ideas.filter fun idea => !prepared.isCompleted idea.id).map fun idea =>
        { sourceIds := idea.sourceIds, ideaIds := [idea.id], reason := "reconciliation_decision_budget_exceeded" } }
  else
    let p := bufferedChanges lib prepared expanded
    { content := if p.appliedOperationIds = [] ∨ (p.edits = [] ∧ p.additions = []) then original else render lib prepared p
      appliedOperationIds := p.appliedOperationIds
      appliedOperations := p.appliedOperations
      pending := p.pending }

end Zenod.Engine
