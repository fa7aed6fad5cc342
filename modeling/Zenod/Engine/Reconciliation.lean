/-
Reconciliation (`engine/reconciliation.ts`): the ideas of a piece of evidence
are brought into an existing page by operations a model chooses.
`prepareReconciliation` bounds what the model is shown and fixes the lines it
may refer to; `applyReconciliation` checks each operation against the source,
buffers its effect with its group, and edits the page.
-/
import Zenod.Engine.Facts
import Zenod.Engine.SourceQuote

namespace Zenod.Engine

open Text Vault
open Evidence (MemoryEntry)

/-! ## Requests and operations -/

structure ReconciliationAddCandidate extends ReconciliationSource where
  ideaIds : List Text
deriving DecidableEq

structure ReconciliationStatement where
  id : Text
  text : Text
  sectionId : Text
  factKey : Option Text
deriving DecidableEq

structure ReconciliationIdea where
  id : Text
  topic : Text
  sourceIds : List Text
  sourcePartial : Bool := false
  omittedSourceCount : Nat := 0
  priorFailure : Option Text := none
  addCandidateFailure : Option Text := none
deriving DecidableEq

/-- Title and scope of the existing branch. -/
structure BranchDescription where
  title : Text
  scope : Text
deriving DecidableEq

structure ReconciliationInput where
  path : Text
  revision : Option Text
  contextPartial : Bool
  branch : Option BranchDescription
  addCandidates : List ReconciliationAddCandidate
  statements : List ReconciliationStatement
  sources : List ReconciliationSource
  ideas : List ReconciliationIdea

inductive OperationKind | add | linkSource | supersede | conflict | clarify
deriving DecidableEq, Repr

def OperationKind.text : OperationKind → Text
  | .add => "add".toList
  | .linkSource => "link_source".toList
  | .supersede => "supersede".toList
  | .conflict => "conflict".toList
  | .clarify => "clarify".toList

/-- What the model answers; `statement` and `reason` are never read. -/
structure ReconciliationOperation where
  kind : OperationKind
  ideaIds : Option (List Text) := none
  replacementQuote : Option Text := none
  sourceIds : List Text
  sourceQuote : Text
  targetId : Option Text
  factKey : Option Text
  correctionQuote : Option Text
deriving DecidableEq

structure AppliedOperation where
  id : Text
  sourceIds : List Text
  ideaIds : List Text
deriving DecidableEq

structure PendingItem where
  sourceIds : List Text
  ideaIds : List Text
  reason : String
deriving DecidableEq

structure ReconciliationResult where
  content : Text
  appliedOperationIds : List Text := []
  appliedOperations : List AppliedOperation := []
  pending : List PendingItem := []

/-! ## Keyed collections -/

/-- A JavaScript `Map` with string keys, in the order of insertion. -/
abbrev MapOf (α : Type) := List (Text × α)

def MapOf.get {α : Type} (m : MapOf α) (key : Text) : Option α := (m.find? (·.1 = key)).map (·.2)

def MapOf.has {α : Type} (m : MapOf α) (key : Text) : Bool := m.any (·.1 = key)

def MapOf.set {α : Type} (m : MapOf α) (key : Text) (value : α) : MapOf α :=
  if m.has key then m.map fun e => if e.1 = key then (key, value) else e else m ++ [(key, value)]

/-- `set.add(t)`. -/
def addTo (set : List Text) (t : Text) : List Text := if set.contains t then set else set ++ [t]

/-! ## Comparing statements -/

variable (lib : Library)

def digest (value : Value) : Text := (lib.sha256 value.json).take 24

def pageRevision (raw : Text) : Text := lib.sha256 raw

def summaryMaxChars : Nat := 480

open Regex in
/-- `CITATION`. -/
def citationRegex : Regex :=
  sequence [word "[[", Regex.date, word "#^e-", times 6 hexDigit, opt (sequence [lit ['|'], many (noneOf "]")]), word "]]"]

open Regex in
/-- A line of a page without its markup. -/
def clean (line : Text) : Text :=
  let marker := sequence [word "<!-- zenod-op:", some1 hexDigit, word " -->"]
  let bullet := sequence [start, spaces, lit ['-', '*', '>'], spaces]
  let qualifier := sequence [start, word "**", words ["Correction", "Unresolved conflict"], word ":**", spaces]
  let parentheses := sequence [spaces, lit ['('], spaces, lit [')'], spaces, opt (lit ['.']), stop]
  trim (replaceAll plain parentheses [] (replaceAll plain qualifier [] (replaceAll plain bullet []
    (replaceAll plain citationRegex [] (replaceAll plain marker [] line)))))

open Regex in
def equivalent (a b : Text) : Bool :=
  let folded (t : Text) : Text := lib.toLowerCase (trim
    (replaceAll plain (some1 (one fun c => Js.isSpace c || ".,;:!?".toList.contains c)) " ".toList (lib.unicode.nfkc t)))
  folded a == folded b

open Regex in
/-- `/\d+(?:[-./]\d+)*/`. -/
def numberRegex : Regex := sequence [some1 digit, many (sequence [lit ['-', '.', '/'], some1 digit])]

structure Signature where
  numbers : Text
  negative : Bool
  uncertain : Bool
  actors : Text
deriving DecidableEq

open Regex in
def signature (text : Text) : Signature :=
  let flags := ignoreCase lib.unicode
  let wordLike (c : Char) : Bool := lib.unicode.isLetter c || lib.unicode.isNumber c || c == '_'
  let actor := sequence [notBehind wordLike, group 1 (sequence [one lib.unicode.isUpper, some1 (one lib.unicode.isLetter)]),
    some1 space,
    oneOf [word "approved", word "owns", word "leads", accented "aprob" 'o' 'ó' "", word "posee", word "dirige"],
    notAhead (one wordLike)]
  { numbers := ("|".toList).intercalate (sort ((matchAll plain numberRegex text).map (·.text)))
    negative := test flags (wholeWord (["not", "never", "no", "nunca", "without", "sin"].map word)) text
    uncertain := test flags (wholeWord (["may", "might", "could", "perhaps", "maybe", "plan", "hope"].map word ++
      [accented "podr" 'i' 'í' "a", accented "quiz" 'a' 'á' "s"] ++ ["posiblemente", "planeo", "espero"].map word)) text
    actors := ("|".toList).intercalate (sort ((matchAll plain actor text).filterMap (·.group 1))) }

/-- Obvious semantic changes cannot be hidden by a link. -/
def compatibleLink (a b : Text) : Bool := signature lib a = signature lib b

open Regex in
/-- Whether a correction retracts a number that the statement it corrects does not have. -/
def retractsOther (correctionQuote target : Text) : Bool :=
  let ending := alt (sequence [spaces, boundary, words ["but", "sino"], boundary]) (lit [';', ','])
  let retraction := sequence [boundary,
    oneOf [sequence [word "ya", some1 space, word "no"], sequence [word "no", some1 space, word "longer"], word "not", word "no"],
    boundary, star false (noneOf ";,.\n"), ahead ending]
  let numbers (t : Text) : List Text := (matchAll plain numberRegex t).map (·.text)
  match matchAll (ignoreCaseUnicode lib.unicode) retraction correctionQuote with
  | [retracted] => numbers target ≠ [] && (numbers retracted.text).any fun n => !(numbers target).contains n
  | _ => false

/-! ## Preparing -/

structure ContextSection where
  id : Text
  excerptStart : Nat
  text : Text

structure ContextBranch where
  path : Text
  revision : Text
  title : Text
  scope : Text
  sections : List ContextSection

structure BranchContextPacket where
  branches : List ContextBranch
  isPartial : Bool

structure RepositoryRevision where
  provider : Text
  id : Text

structure PrepareInput where
  path : Text
  raw : Option Text
  title : Text
  type : Text
  today : Text
  repositoryRevision : Option RepositoryRevision := none
  ideas : Option (List ReconciliationIdea) := none
  completedIdeaIds : List Text := []
  sourceContent : Option Text := none
  facts : List FactProposal := []
  addCandidates : Option (List ReconciliationAddCandidate) := none
  evidence : MemoryEntry
  sources : List ReconciliationSource
  context : BranchContextPacket
  links : List Text

/-- A line of the page's body, as offsets into it. -/
structure Target where
  start : Nat
  stop : Nat
  line : Text
  text : Text
deriving DecidableEq

structure Prepared where
  input : PrepareInput
  request : ReconciliationInput
  targets : MapOf Target
  ideas : List ReconciliationIdea
  omittedSourcesByIdea : MapOf (List Text)
  omittedAddCandidatesByIdea : MapOf String

def PrepareInput.parsed (input : PrepareInput) : Option ParsedNote := input.raw.map (parseNote lib.yaml)

def PrepareInput.body (input : PrepareInput) : Text := ((input.parsed lib).map (·.body)).getD []

def PrepareInput.frontmatter (input : PrepareInput) : Option Frontmatter := (input.parsed lib).bind (·.frontmatter)

def PrepareInput.memoryFacts (input : PrepareInput) : List MemoryFact :=
  parseMemoryFacts lib ((input.frontmatter lib).bind (·.get memoryFactsKey))

/-- `text.matchAll(/[^\n]+/g)` with the offset of each match. -/
def nonEmptyLinesFrom : Nat → List Text → List (Nat × Text)
  | _, [] => []
  | offset, l :: rest =>
    (if l = [] then [] else [(offset, l)]) ++ nonEmptyLinesFrom (offset + utf16Length l + 1) rest

def nonEmptyLines (text : Text) : List (Nat × Text) := nonEmptyLinesFrom 0 (lines text)

open Regex in
/-- `/^\s*(?:#|```|<!--|\[\[)/`. -/
def isStructural (text : Text) : Bool :=
  test plain (sequence [start, spaces, words ["#", "\x60\x60\x60", "<!--", "[["]]) text

structure Statements where
  statements : List ReconciliationStatement := []
  targets : MapOf Target := []

def maxStatementChars : Nat := 1600

/-- One line of a section: partial lines, and lines that say nothing, are no targets. -/
def addStatement (input : PrepareInput) (s : ContextSection) (acc : Statements) (found : Nat × Text) : Statements :=
  let body := input.body lib
  let start := s.excerptStart + found.1
  let stop := start + utf16Length found.2
  if (0 < start ∧ hasUnit body (start - 1) '\n' = false) ∨ (stop < utf16Length body ∧ hasUnit body stop '\n' = false) then acc
  else
    let text := clean found.2
    if text = [] ∨ isStructural text ∨ maxStatementChars < utf16Length text then acc
    else
      let same := (acc.statements.filter (·.text = text)).length
      let id := "st-".toList ++ digest lib (.list [.str input.path, .str s.id, .str text, .num (toString same).toList])
      let fact := (input.memoryFacts lib).find? fun fact => equivalent lib (fact.renderedStatement.getD fact.statement) text
      { statements := acc.statements ++ [{ id := id, text := text, sectionId := s.id, factKey := fact.map (·.key) }]
        targets := acc.targets.set id { start := start, stop := stop, line := found.2, text := text } }

def PrepareInput.branch (input : PrepareInput) : Option ContextBranch := input.context.branches.find? (·.path = input.path)

def collectStatements (input : PrepareInput) : Statements :=
  ((input.branch.map (·.sections)).getD []).foldl
    (fun acc s => (nonEmptyLines s.text).foldl (addStatement lib input s) acc) {}

def jsonLength (v : Value) : Nat := utf16Length v.json

def intValue (n : Int) : Value := .num (toString n).toList

def ReconciliationSource.entries (s : ReconciliationSource) : List (Text × Value) :=
  [("id".toList, .str s.id), ("start".toList, intValue s.start), ("end".toList, intValue s.stop),
    ("text".toList, .str s.text)]

def ReconciliationSource.value (s : ReconciliationSource) : Value := .map s.entries

def ReconciliationAddCandidate.value (c : ReconciliationAddCandidate) : Value :=
  .map (c.toReconciliationSource.entries ++ [("ideaIds".toList, textValues c.ideaIds)])

def ReconciliationStatement.value (s : ReconciliationStatement) : Value :=
  .map [("id".toList, .str s.id), ("text".toList, .str s.text), ("sectionId".toList, .str s.sectionId),
    ("factKey".toList, textOrNull s.factKey)]

def BranchDescription.value (b : BranchDescription) : Value :=
  .map [("title".toList, .str b.title), ("scope".toList, .str b.scope)]

/-- Statements while they fit with the description of the branch. -/
def boundStatements (branch : Option BranchDescription) (statements : List ReconciliationStatement) :
    List ReconciliationStatement :=
  statements.foldl (fun kept s =>
    let packet : List (Text × Value) := (branch.map fun b => ("branch".toList, b.value)).toList ++
      [("statements".toList, .list ((kept ++ [s]).map (·.value)))]
    if kept.length < 48 ∧ jsonLength (.map packet) ≤ 8000 then kept ++ [s] else kept) []

def candidateSources (input : PrepareInput) : List ReconciliationAddCandidate := input.addCandidates.getD []

/-- The sources of an idea reach from the candidate's start to its end without a gap. -/
def coveredFrom (raw : Text) (candidate : ReconciliationAddCandidate) : Int → List ReconciliationSource → Bool
  | _, [] => false
  | reached, s :: rest =>
    if s.stop ≤ reached then coveredFrom raw candidate reached rest
    else if reached < s.start then false
    else if !Js.isSafeInteger s.start || !Js.isSafeInteger s.stop || s.start < 0 ||
        s.stop - s.start != (utf16Length s.text : Int) || !isSlice raw s.start.toNat s.stop.toNat s.text then false
    else if candidate.stop ≤ max reached s.stop then true
    else coveredFrom raw candidate (max reached s.stop) rest

/-- Why a candidate cannot be presented, if it cannot. -/
def candidateFailure (input : PrepareInput) (ideas : List ReconciliationIdea) (candidate : ReconciliationAddCandidate) :
    Option String :=
  let raw := input.sourceContent.getD input.evidence.content
  let covered := candidate.ideaIds.all fun id =>
    let sourceIds := ((ideas.find? (·.id = id)).map (·.sourceIds)).getD []
    coveredFrom raw candidate candidate.start
      ((input.sources.filter fun s => sourceIds.contains s.id).insertionSort (·.start ≤ ·.start))
  let valid := Js.isSafeInteger candidate.start && Js.isSafeInteger candidate.stop && 0 ≤ candidate.start &&
    candidate.start < candidate.stop && isSlice raw candidate.start.toNat candidate.stop.toNat candidate.text &&
    (utf16Length candidate.text : Int) == candidate.stop - candidate.start && candidate.ideaIds != [] && covered
  if ((candidateSources input).filter (·.id = candidate.id)).length ≠ 1 then some "add_candidate_ambiguous"
  else if !valid then some "add_candidate_invalid"
  else if maxStatementChars < utf16Length candidate.text then some "add_candidate_too_long"
  else none

/-- What of sources and candidates is presented. -/
structure Packet where
  sources : List ReconciliationSource := []
  candidates : List ReconciliationAddCandidate := []

def packIdea (input : PrepareInput) (valid : List ReconciliationAddCandidate) (packet : Packet) (idea : ReconciliationIdea) :
    Packet :=
  let sources := packet.sources ++ input.sources.filter fun s =>
    idea.sourceIds.contains s.id && !packet.sources.any (·.id = s.id)
  let candidates := packet.candidates ++ valid.filter fun c =>
    c.ideaIds.contains idea.id && !packet.candidates.any (·.id = c.id)
  if sources.length ≤ 24 ∧ candidates.length ≤ 24 ∧
      jsonLength (.list (sources.map (·.value))) + jsonLength (.list (candidates.map (·.value))) ≤ 16000 then
    { sources := sources, candidates := candidates }
  else packet

def packSources (sources : List ReconciliationSource) : List ReconciliationSource :=
  sources.foldl (fun kept s =>
    if kept.length < 24 ∧ jsonLength (.list ((kept ++ [s]).map (·.value))) ≤ 16000 then kept ++ [s] else kept) []

def packed (input : PrepareInput) (ideas : List ReconciliationIdea) (valid : List ReconciliationAddCandidate) : Packet :=
  if input.addCandidates.isSome then (ideas.take 24).foldl (packIdea input valid) {}
  else { sources := packSources input.sources }

/-- An idea as the model sees it. -/
def boundIdea (packet : Packet) (failures : MapOf String) (idea : ReconciliationIdea) : ReconciliationIdea × List Text :=
  let sourceIds := (idea.sourceIds.filter fun id => packet.sources.any (·.id = id)).take 8
  let omitted := idea.sourceIds.filter fun id => !sourceIds.contains id
  let failure := failures.get idea.id
  let ready := omitted = [] ∧ failure.isNone
  let priorFailure := (idea.priorFailure.filter (· ≠ [])).filter fun reason =>
    !(ready ∧ reason = "reconciliation_source_context_incomplete".toList)
  ({ id := idea.id, topic := takeUnits 160 idea.topic, sourceIds := sourceIds, sourcePartial := omitted ≠ []
     omittedSourceCount := omitted.length, priorFailure := priorFailure.map (takeUnits 240), addCandidateFailure := failure.map (·.toList) },
    omitted)

def defaultIdeas (sources : List ReconciliationSource) : List ReconciliationIdea :=
  sources.map fun s => { id := "idea-".toList ++ s.id, topic := takeUnits 160 s.text, sourceIds := [s.id] }

/-- `prepareReconciliation`, none when the branch was read at another revision of the page. -/
def prepareReconciliation (input : PrepareInput) : Option Prepared :=
  let revision := input.raw.map (pageRevision lib)
  if input.branch.any fun b => some b.revision ≠ revision then none
  else
    let collected := collectStatements lib input
    let branch := input.branch.map fun b =>
      { title := takeUnits 120 b.title, scope := takeUnits summaryMaxChars b.scope : BranchDescription }
    let statements := boundStatements branch collected.statements
    let ideas := input.ideas.getD (defaultIdeas input.sources)
    let offered := candidateSources input
    let valid := offered.filter fun c => (candidateFailure input ideas c).isNone
    let packet := packed input ideas valid
    let refused : MapOf String := offered.foldl (fun m c =>
      match candidateFailure input ideas c with
      | some reason => c.ideaIds.foldl (fun m id => m.set id reason) m
      | none => m) []
    let failures := valid.foldl (fun m c =>
      if packet.candidates.any (·.id = c.id) then m
      else c.ideaIds.foldl (fun m id => MapOf.set m id "add_candidate_context_incomplete") m) refused
    let bounded := (ideas.take 24).map (boundIdea packet failures)
    let omitted : MapOf (List Text) := (bounded.foldl (fun m b =>
      if b.2 = [] then m else MapOf.set m b.1.id b.2) [])
    let omitted := (ideas.drop 24).foldl (fun m idea => MapOf.set m idea.id idea.sourceIds) omitted
    let ready := (bounded.map (·.1)).filter fun idea =>
      !idea.sourcePartial && idea.addCandidateFailure != some "add_candidate_context_incomplete".toList
    let candidates := (packet.candidates.map fun c =>
      { c with ideaIds := c.ideaIds.filter fun id => ready.any (·.id = id) }).filter (·.ideaIds ≠ [])
    some {
      input := input
      request := {
        path := input.path, revision := revision
        contextPartial := input.context.isPartial || statements.length < collected.statements.length ||
          packet.sources.length < input.sources.length || 24 < ideas.length
        branch := branch, addCandidates := candidates, statements := statements, sources := packet.sources
        ideas := ready }
      targets := collected.targets.filter fun e => statements.any (·.id = e.1)
      ideas := ideas, omittedSourcesByIdea := omitted, omittedAddCandidatesByIdea := failures }

end Zenod.Engine
