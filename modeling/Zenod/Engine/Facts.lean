/-
Temporal facts (`engine/temporalFacts.ts`): the records a note keeps of what
was reported when, under `memoryFacts` in its frontmatter. `parseMemoryFacts`
reads them, `appendMemoryFacts` adds the proposals that the evidence bears out
and never touches the records that are there.

The hash, the YAML library and the Unicode database are parameters
(`Library`), as is what `Date.parse` makes of a time.
-/
import Zenod.Evidence.Log
import Zenod.Lib.Regex
import Zenod.Vault.Note

namespace Zenod.Engine

open Text Vault
open Evidence (MemoryEntry isDay)

structure Library where
  yaml : Yaml
  unicode : Unicode
  toLowerCase : Text → Text
  /-- SHA-256 as hexadecimal digits. -/
  sha256 : Text → Text
  /-- `!Number.isNaN(Date.parse(t))`. -/
  isDate : Text → Bool

/-! ## Records -/

structure LegacyStatementHistory where
  path : Text
  statement : Text
  statementId : Text
  contentHash : Text
  provider : Text
  revision : Text
deriving DecidableEq

structure FactProposal where
  key : Text
  statement : Text
  renderedStatement : Option Text := none
  reportedConflict : Bool := false
  legacySupersedes : Option LegacyStatementHistory := none
  effectiveDate : Option Text
  effectiveDateQuote : Option Text
  correctionQuote : Option Text
  supersedesQuotes : List Text
  supersedesIds : Option (List Text) := none
  verificationQuote : Option Text
deriving DecidableEq

inductive Origin | synthetic | userReport
deriving DecidableEq, Repr

def Origin.text : Origin → Text
  | .synthetic => "synthetic".toList
  | .userReport => "user_report".toList

structure MemoryFact extends FactProposal where
  id : Text
  evidenceRef : Text
  evidenceDate : Option Text
  origin : Origin
  supersedes : List Text
  unresolvedCorrection : Bool
deriving DecidableEq

variable (lib : Library)

/-! ## What a quote says -/

open Regex in
/-- `/^Log\/\d{4}-\d{2}-\d{2}\.md#\^e-[a-f0-9]{6}$/`. -/
def isEvidenceRef (t : Text) : Bool :=
  test plain (sequence [start, word "Log/", date, word ".md#^e-", times 6 hexDigit, stop]) t

open Regex in
/-- `CORRECTION`. -/
def correction : Regex :=
  wholeWord [sequence [word "correct", opt (words ["ion", "ed", "ing"])], sequence [word "replace", opt (word "s")],
    sequence [word "supersede", opt (word "s")], word "instead", word "no longer"]

open Regex in
/-- `UNCERTAIN_CORRECTION`. -/
def uncertainCorrection : Regex :=
  wholeWord [word "do not", word "don't", sequence [word "not ", opt (word "a "), word "correction"], word "should not",
    word "never", word "may", word "might", word "could", word "consider", word "hypothetical", word "if",
    word "plan to", word "need to", word "will"]

def explicitCorrection (quote statement : Text) : Bool :=
  includes quote statement && Regex.test (Regex.ignoreCase lib.unicode) correction quote &&
    !Regex.test (Regex.ignoreCase lib.unicode) uncertainCorrection quote

open Regex in
/-- Either spelling of a word with one accented letter. -/
def accented (before : String) (c d : Char) (behind : String) : Regex :=
  sequence [word before, lit [c, d], word behind]

open Regex in
def targetedIntent : Regex :=
  alt (wholeWord [sequence [word "correct", opt (words ["ion", "ed", "ing"])], word "replace", word "replaces",
      word "supersede", word "supersedes", word "corrijo", word "corrige", word "rectifico", word "sustituyo",
      word "reemplazo"])
    (accented "correcci" 'o' 'ó' "n")

open Regex in
def targetedDoubt : Regex :=
  wholeWord [word "if", word "maybe", word "might", word "could", word "hypothetical", word "consider", word "do not",
    word "don't", word "not a correction", word "should not", word "never", accented "quiz" 'a' 'á' "s",
    accented "podr" 'i' 'í' "a", accented "hipot" 'e' 'é' "tico", word "si", word "no corrijo",
    accented "no es una correcci" 'o' 'ó' "n"]

def targetedCorrection (quote statement : Text) : Bool :=
  includes quote statement && Regex.test (Regex.ignoreCaseUnicode lib.unicode) targetedIntent quote &&
    !Regex.test (Regex.ignoreCaseUnicode lib.unicode) targetedDoubt quote

open Regex in
/-- A statement between quotation marks, literally. -/
def quotedStatement (statement : Text) : Regex :=
  let marked (before behind : Char) : Regex := sequence [lit [before], text statement, lit [behind]]
  oneOf [marked '"' '"', marked '“' '”', marked (Char.ofNat 0x27) (Char.ofNat 0x27)]

open Regex in
/-- A quote that says that the one statement gives way to the other. -/
def directed (quote source target : Text) : Bool :=
  let old := quotedStatement source
  let next := quotedStatement target
  test (ignoreCase lib.unicode) (sequence [boundary, words ["replace", "replaces", "replaced", "replacing"],
      some1 space, old, some1 space, word "with", some1 space, next]) quote ||
    test (ignoreCase lib.unicode)
      (sequence [next, some1 space, words ["replaces", "supersedes"], some1 space, old]) quote

def directionalCorrection (quote oldStatement newStatement : Text) : Bool :=
  if oldStatement = newStatement ∨ includes quote oldStatement = false ∨
      explicitCorrection lib quote newStatement = false then false
  else directed lib quote oldStatement newStatement && !directed lib quote newStatement oldStatement

open Regex in
/-- The effective marker binds directly to the statement. -/
def explicitEffectiveDate (quote : Option Text) (statement date : Text) : Bool :=
  match (quote.filter (· ≠ [])).bind (behindLast statement) with
  | none => false
  | some suffix =>
    test (ignoreCase lib.unicode) (sequence [start,
      many (one fun c => Js.isSpace c || ("\".,;:()—-".toList.contains c) || c.toNat == 0x27),
      oneOf [sequence [word "effective", opt (word " date")], word "as of", word "valid from", word "since", word "from"],
      spaces, opt (word ":"), spaces, text date, boundary]) suffix

def daysInMonth (year month : Nat) : Nat :=
  if month = 2 then if year % 4 = 0 ∧ (year % 100 ≠ 0 ∨ year % 400 = 0) then 29 else 28
  else if month ∈ [4, 6, 9, 11] then 30 else 31

def number (t : Text) : Nat := t.foldl (fun n c => 10 * n + (c.toNat - 0x30)) 0

/-- A real day, written `YYYY-MM-DD`. -/
def validFactDate (t : Text) : Bool :=
  let month := number ((t.drop 5).take 2)
  let day := number (t.drop 8)
  isDay t && 1 ≤ month && month ≤ 12 && 1 ≤ day && day ≤ daysInMonth (number (t.take 4)) month

/-- `a < b` on strings. -/
def precedes (a b : Text) : Bool := !le b a

open Regex in
def verificationScope (quote : Option Text) (statement : Text) (evidence : MemoryEntry) (content : Text) : Option Text :=
  match quote.filter (· ≠ []) with
  | none => none
  | some q =>
    let flags := ignoreCase lib.unicode
    let checks : List String := ["verified", "tested", "checked", "reproduced"]
    if 1600 < utf16Length q ∨ includes content q = false ∨ test flags (wholeWord (checks.map word)) q = false ∨
        test flags (alt (wholeWord [word "not", word "never", word "unverified", word "untested", word "will",
            word "plan", word "might", word "could", word "if"])
          (words ["didn't", "haven't", "hasn't"])) q then none
    else
      let claim := quotedStatement statement
      let check := words checks
      let binding := sequence [start,
        alt (sequence [check, some1 space, claim]) (sequence [claim, some1 space, check]), some1 space, word "on",
        some1 space, group 1 Regex.date, some1 space, words ["in", "against", "using", "on"], some1 space,
        group 2 (sequence [noneOf ".!\n", upTo 159 (noneOf ".!\n")])]
      match (exec flags binding (trim q)).map fun m => (m.group 1, m.group 2) with
      | some (some day, some scope) =>
        if test flags (wholeWord (["local", "staging", "production", "environment", "version", "build", "commit",
            "sha"].map word)) scope = false then none
        else
          let captured := takeUnits 10 evidence.capturedAt
          if validFactDate day ∧ validFactDate captured ∧ precedes captured day = false then some q else none
      | _ => none

open Regex in
def synthetic : Regex :=
  alt (sequence [boundary, word "synthetic", opt (word " test"), opt (words [" data", " fixture"]), boundary])
    (sequence [boundary, word "test fixture", boundary])

def factId (ref key statement : Text) : Text :=
  (lib.sha256 (Value.list [.str ref, .str key, .str statement]).json).take 20

/-! ## Reading records -/

abbrev Entries := List (Text × Value)

def Entries.field (e : Entries) (key : String) : Option Value := Frontmatter.get e key.toList

def Entries.textField (e : Entries) (key : String) : Option Text := (e.field key).bind Value.text?

/-- A string or null. -/
def Entries.nullable (e : Entries) (key : String) : Option (Option Text) :=
  match e.field key with
  | some .null => some none
  | some (.str t) => some (some t)
  | _ => none

/-- A list of strings. -/
def Value.texts? : Value → Option (List Text)
  | .list items => items.mapM Value.text?
  | _ => none

def Entries.texts (e : Entries) (key : String) : Option (List Text) := (e.field key).bind Value.texts?

/-- A field that may be left out. -/
def Entries.optional {α : Type} (e : Entries) (key : String) (read : Value → Option α) : Option (Option α) :=
  match e.field key with
  | none => some none
  | some v => (read v).map some

def isTruthy : Option Value → Bool
  | none | some .null => false
  | some (.bool b) => b
  | some (.num t) => t ≠ "0".toList
  | some (.str t) => t ≠ []
  | some (.list _) | some (.map _) => true

def readLegacy : Value → Option LegacyStatementHistory
  | .map fields => do
    let e : Entries := fields
    let path ← e.textField "path"
    let statement ← (e.textField "statement").filter (utf16Length · ≤ 1600)
    let statementId ← e.textField "statementId"
    let contentHash ← (e.textField "contentHash").filter fun h =>
      h.length = 64 ∧ h.all fun c => "0123456789abcdef".toList.contains c
    let provider ← (e.textField "provider").filter fun p => p = "github".toList ∨ p = "google_drive".toList
    let revision ← (e.textField "revision").filter (· ≠ [])
    return { path := path, statement := statement, statementId := statementId, contentHash := contentHash
             provider := provider, revision := revision }
  | _ => none

def readOrigin (t : Text) : Option Origin := [Origin.synthetic, .userReport].find? (·.text = t)

def Value.bool? : Value → Option Bool
  | .bool b => some b
  | _ => none

def readFact : Value → Option MemoryFact
  | .map fields => do
    let e : Entries := fields
    let key ← (e.textField "key").filter fun t => t ≠ [] ∧ utf16Length t ≤ 160
    let statement ← (e.textField "statement").filter fun t => t ≠ [] ∧ utf16Length t ≤ 1600
    let evidenceRef ← (e.textField "evidenceRef").filter (isEvidenceRef ·)
    let id ← (e.textField "id").filter (· = factId lib evidenceRef key statement)
    let effectiveDate ← (e.nullable "effectiveDate").filter (·.all (validFactDate ·))
    let effectiveDateQuote ← e.nullable "effectiveDateQuote"
    let evidenceDate ← e.nullable "evidenceDate"
    let origin ← (e.textField "origin").bind readOrigin
    let correctionQuote ← e.nullable "correctionQuote"
    let verificationQuote ← e.nullable "verificationQuote"
    let supersedesQuotes ← e.texts "supersedesQuotes"
    let supersedes ← e.texts "supersedes"
    let supersedesIds ← e.optional "supersedesIds" Value.texts?
    let renderedStatement ← e.optional "renderedStatement" fun v => v.text?.filter (utf16Length · ≤ 800)
    let legacySupersedes ← e.optional "legacySupersedes" readLegacy
    let unresolvedCorrection ← (e.field "unresolvedCorrection").bind Value.bool?
    return {
      key := key, statement := statement, renderedStatement := renderedStatement
      reportedConflict := isTruthy (e.field "reportedConflict"), legacySupersedes := legacySupersedes
      effectiveDate := effectiveDate, effectiveDateQuote := effectiveDateQuote, correctionQuote := correctionQuote
      supersedesQuotes := supersedesQuotes, supersedesIds := supersedesIds, verificationQuote := verificationQuote
      id := id, evidenceRef := evidenceRef, evidenceDate := evidenceDate, origin := origin
      supersedes := supersedes, unresolvedCorrection := unresolvedCorrection }
  | _ => none

/-- Malformed records never become evidence. -/
def parseMemoryFacts : Option Value → List MemoryFact
  | some (.list items) => items.filterMap (readFact lib)
  | _ => []

/-! ## Writing records -/

def textOrNull (t : Option Text) : Value := (t.map Value.str).getD .null

def LegacyStatementHistory.value (h : LegacyStatementHistory) : Value :=
  .map [("path".toList, .str h.path), ("statement".toList, .str h.statement),
    ("statementId".toList, .str h.statementId), ("contentHash".toList, .str h.contentHash),
    ("provider".toList, .str h.provider), ("revision".toList, .str h.revision)]

def textValues (ts : List Text) : Value := .list (ts.map .str)

def MemoryFact.value (f : MemoryFact) : Value :=
  .map ([("id".toList, .str f.id), ("key".toList, .str f.key), ("statement".toList, .str f.statement)] ++
    (f.renderedStatement.map fun t => ("renderedStatement".toList, Value.str t)).toList ++
    (if f.reportedConflict then [("reportedConflict".toList, .bool true)] else []) ++
    (f.legacySupersedes.map fun h => ("legacySupersedes".toList, h.value)).toList ++
    [("evidenceRef".toList, .str f.evidenceRef), ("evidenceDate".toList, textOrNull f.evidenceDate),
      ("effectiveDate".toList, textOrNull f.effectiveDate),
      ("effectiveDateQuote".toList, textOrNull f.effectiveDateQuote),
      ("correctionQuote".toList, textOrNull f.correctionQuote),
      ("supersedesQuotes".toList, textValues f.supersedesQuotes)] ++
    (f.supersedesIds.map fun ids => ("supersedesIds".toList, textValues ids)).toList ++
    [("supersedes".toList, textValues f.supersedes), ("unresolvedCorrection".toList, .bool f.unresolvedCorrection),
      ("origin".toList, .str f.origin.text), ("verificationQuote".toList, textOrNull f.verificationQuote)])

/-! ## Appending proposals -/

def evidenceOrigin (evidence : MemoryEntry) : Origin :=
  if Regex.test (Regex.ignoreCase lib.unicode) synthetic evidence.content ∨ evidence.source = .selftest then .synthetic
  else .userReport

/-- The edges of a correction: the facts it supersedes, and whether it is left unresolved. -/
def correctionEdges (prior : List MemoryFact) (p : FactProposal) (key : Text) (origin : Origin)
    (effectiveDate correctionQuote : Option Text) (requested targeted : List Text) : List Text × Bool :=
  let tooEarly (fact : MemoryFact) : Bool :=
    (effectiveDate.bind fun day => fact.effectiveDate.map fun other => precedes day other).getD false
  match correctionQuote with
  | none =>
    ([], (p.correctionQuote.filter (· ≠ [])).isSome || requested ≠ [] || targeted ≠ [] || p.legacySupersedes.isSome)
  | some quote =>
    if p.legacySupersedes.isSome ∧ targeted = [] then ([], false)
    else if targeted ≠ [] then
      let found := prior.filter fun fact => targeted.contains fact.id && fact.key == key && fact.origin = origin
      if found.length ≠ targeted.eraseDups.length ∨ found.any tooEarly then ([], true) else (found.map (·.id), false)
    else if requested = [] then ([], true)
    else
      let edges := requested.map fun old =>
        match prior.filter fun fact => fact.key == key && fact.statement == old && fact.origin = origin with
        | [target] =>
          if directionalCorrection lib quote old p.statement ∧ tooEarly target = false then some target.id else none
        | _ => none
      if edges.all (·.isSome) then (edges.filterMap id, false) else ([], true)

/-- The record of a proposal, none when the evidence does not bear it out or it is there already. -/
def factOf (prior additions : List MemoryFact) (evidence : MemoryEntry) (assigned : Text) (p : FactProposal) :
    Option MemoryFact :=
  if trim p.key = [] ∨ 160 < utf16Length p.key ∨ trim p.statement = [] ∨ 1600 < utf16Length p.statement ∨
      includes assigned p.statement = false then none
  else
    let key := lib.toLowerCase (trim p.key)
    let id := factId lib evidence.evidenceRef key p.statement
    if (prior ++ additions).any (·.id = id) then none
    else
      let quoted (q : Option Text) : Option Text :=
        q.filter fun q => q ≠ [] ∧ utf16Length q ≤ 2400 ∧ includes assigned q
      let targeted := (p.supersedesIds.getD []).take 24
      let intended := p.supersedesIds.getD [] ≠ [] ∨ p.legacySupersedes.isSome
      let correctionQuote := (quoted p.correctionQuote).filter fun q =>
        if intended then targetedCorrection lib q p.statement else explicitCorrection lib q p.statement
      let effectiveDateQuote := quoted p.effectiveDateQuote
      let effectiveDate := p.effectiveDate.filter fun day =>
        validFactDate day ∧ explicitEffectiveDate lib effectiveDateQuote p.statement day
      let origin := evidenceOrigin lib evidence
      let requested := (p.supersedesQuotes.filter (· ≠ [])).take 24
      let edges := correctionEdges lib prior p key origin effectiveDate correctionQuote requested targeted
      some {
        key := key, statement := p.statement, renderedStatement := p.renderedStatement.filter (· ≠ [])
        reportedConflict := p.reportedConflict, legacySupersedes := p.legacySupersedes
        effectiveDate := effectiveDate
        effectiveDateQuote := if effectiveDate.isSome then effectiveDateQuote else none
        correctionQuote := correctionQuote, supersedesQuotes := requested
        supersedesIds := if targeted = [] then none else some targeted
        verificationQuote := verificationScope lib p.verificationQuote p.statement evidence assigned
        id := id, evidenceRef := evidence.evidenceRef
        evidenceDate := if lib.isDate evidence.capturedAt then some evidence.capturedAt else none
        origin := origin, supersedes := edges.1, unresolvedCorrection := edges.2 }

def addFacts (prior : List MemoryFact) (evidence : MemoryEntry) (assigned : Text) (proposals : List FactProposal) :
    List MemoryFact :=
  (proposals.take 24).foldl
    (fun additions p => additions ++ (factOf lib prior additions evidence assigned p).toList) []

def citationFor (ref : Text) : Text :=
  let name := if startsWith ref "Log/".toList then ref.drop 4 else ref
  let name := match cut ".md#".toList name with
    | some parts => parts.1 ++ "#".toList ++ parts.2
    | none => name
  "[[".toList ++ name ++ "]]".toList

def MemoryFact.annotation (f : MemoryFact) : Text :=
  "- ".toList ++ f.key ++ ": ".toList ++ (Value.str f.statement).json ++ " — ".toList ++ f.origin.text ++
    "; effective ".toList ++ f.effectiveDate.getD "unknown".toList ++ "; ".toList ++
    (if f.supersedes ≠ [] then "explicit correction of ".toList ++ (", ".toList).intercalate f.supersedes
      else if f.unresolvedCorrection then "correction target unresolved; conflict retained".toList
      else "reported evidence, not live verification".toList) ++
    ". (".toList ++ citationFor f.evidenceRef ++ ")".toList

def memoryFactsKey : Text := "memoryFacts".toList

/-- `parseNote(original).frontmatter?.memoryFacts`. -/
def priorFacts (original : Option Text) : Option Value :=
  ((original.filter (· ≠ [])).bind fun raw => (parseNote lib.yaml raw).frontmatter).bind (·.get memoryFactsKey)

/-- The frontmatter with the records of a call, and these. -/
def withFacts (f : Frontmatter) (priorValue : Option Value) (additions : List MemoryFact) : Frontmatter :=
  match priorValue with
  | some (.list []) | none =>
    if additions = [] then f.erase memoryFactsKey
    else (f.erase memoryFactsKey).set memoryFactsKey (.list (additions.map MemoryFact.value))
  | some (.list retained) => (f.erase memoryFactsKey).set memoryFactsKey (.list (retained ++ additions.map MemoryFact.value))
  | some other => f.set memoryFactsKey other

/-- The records a call adds: none when the field holds something else than a list. -/
def newFacts (original : Option Text) (proposals : List FactProposal) (evidence : MemoryEntry) (assigned : Text) :
    List MemoryFact :=
  match priorFacts lib original with
  | some (.list items) => addFacts lib (parseMemoryFacts lib (some (.list items))) evidence assigned proposals
  | none => addFacts lib [] evidence assigned proposals
  | some _ => []

def appendMemoryFacts (raw : Text) (original : Option Text) (proposals : List FactProposal) (evidence : MemoryEntry)
    (assigned : Text) : Text :=
  let next := parseNote lib.yaml raw
  match next.frontmatter with
  | none => raw
  | some f =>
    let additions := newFacts lib original proposals evidence assigned
    let annotations := additions.map MemoryFact.annotation
    let added := if annotations = [] then [] else "\n\n## Evidence-qualified updates\n\n".toList ++ join annotations ++ "\n".toList
    serializeNote lib.yaml (withFacts f (priorFacts lib original) additions) (next.body ++ added)

end Zenod.Engine
