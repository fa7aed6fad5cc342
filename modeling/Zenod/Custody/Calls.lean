/-
Taking evidence into custody: `captureEvidence` and `store` of
`engine/engine.ts`, each a turn of the write queue from its first check to its
return or throw.

What a call meets is given with it: the clock and the random bytes, how the
remote behaves, what the classifier, the composer and the linter answer, and
what is written to pages on the way. Of the log, of the commits and of the
fallbacks that start again nothing is left out.
-/
import Zenod.Custody.Repo
import Zenod.Engine.EntrySelection
import Zenod.Vault.Note

namespace Zenod.Custody

open Text Evidence
open Engine (Host EntryError CatalogEntry MemoryEntryQuery VaultProvider selectMemoryEntries)

/-! ## Inputs -/

structure StoreInput where
  content : Text
  source : Surface
  verbatim : Option Bool := none
  contentType : Option MemoryContentType := none
  capturedAt : Option Text := none
  sourceId : Option Text := none

/-- What one `appendEvidence` reads of the clock and draws. -/
structure Draw where
  now : Moment
  bytes : RandomBytes

def StoreInput.capture (input : StoreInput) (verbatim : Bool) (draw : Draw) : Capture where
  content := input.content
  source := input.source
  verbatim := verbatim
  now := draw.now
  bytes := draw.bytes
  metadata := { contentType := input.contentType, capturedAt := truthy input.capturedAt, sourceId := truthy input.sourceId }

/-- A path with no day of the log, such as those of pages. -/
structure PagePath where
  path : Text
  page : logDate path = none

/-- What `placeFiling` leaves behind: pages of the tree, and the targets of the `filed:` lines. -/
structure Placing where
  pages : List (PagePath × Text) := []
  targets : List Text := []

/-- What is outside the engine. -/
structure Surroundings where
  host : Host
  unicode : Unicode
  urlOf : Text → Text
  provider : VaultProvider
  /-- `path.join` with the vault's folder, as a path of the vault. -/
  join : Text → Text

/-! ## Steps -/

namespace Repo

def putAll (s : Repo) : List (PagePath × Option Text) → Repo
  | [] => s
  | (page, text) :: rest => (s.put page.path text).putAll rest

def placeFiling (s : Repo) (evidenceRef : Text) (placing : Placing) : Repo :=
  (s.putAll (placing.pages.map fun page => (page.1, some page.2))).appendFiledLines evidenceRef placing.targets

/-- Only an evidence entry is placed. -/
def commitFiling (s : Repo) (evidenceRef : Text) (placing : Placing) (p : Publication) : Repo × Bool :=
  match splitEvidenceRef evidenceRef with
  | .ok _ => (s.placeFiling evidenceRef placing).commitAndPublish p
  | .error _ => s.commitAndPublish p

def writeInboxStub (s : Repo) (stamp content question evidenceRef : Text) : Repo :=
  s.put ("Inbox/needs-filing-".toList ++ stamp ++ ".md".toList) <| some <|
    Text.join ["---".toList, "status: needs-filing".toList, "question: ".toList ++ Js.quote (String.ofList question),
      "evidence: ".toList ++ Js.quote (String.ofList evidenceRef), "---".toList, [], trimEnd content, []]

end Repo

variable (env : Surroundings)

/-! ## captureEvidence -/

structure CaptureCall where
  input : StoreInput
  draw : Draw
  /-- The write lock, or the fetch of the first check, fails. -/
  fails : Bool := false
  publication : Publication := {}

structure Outcome where
  repo : Repo
  /-- What was appended on behalf of the call. -/
  appended : List Capture
  /-- The evidence reference returned; none where the call throws. -/
  returned : Option Text

def located (e : MemoryEntry) : CatalogEntry := { e with url := env.urlOf e.path, provider := env.provider }

/-- `searchEvidenceEntries` in the working tree. -/
def searchEvidenceEntries (s : Repo) (query : MemoryEntryQuery) (limit : Nat) : Except EntryError (List CatalogEntry) := do
  let selected ← selectMemoryEntries env.host ((s.entries s.work).map (located env)) query
  return selected.take (max 1 (min limit 500))

/-- The entry that an earlier capture with the source id has left. -/
def existing (s : Repo) (input : StoreInput) : Except EntryError (Option CatalogEntry) :=
  match truthy input.sourceId with
  | none => .ok none
  | some sourceId => do
    let found ← searchEvidenceEntries env s
      { source := some input.source, contentType := input.contentType, sourceId := some sourceId } 1
    return found.head?

def captureEvidence (s : Repo) (call : CaptureCall) : Outcome :=
  if call.fails ∨ s.interrupted then { repo := s, appended := [], returned := none }
  else
    match existing env s call.input with
    | .error _ => { repo := s, appended := [], returned := none }
    | .ok (some entry) => { repo := s, appended := [], returned := some entry.evidenceRef }
    | .ok none =>
      let c := call.input.capture (call.input.verbatim.getD false) call.draw
      let (evidence, s) := s.append c
      let (s, done) := s.commitAndPublish call.publication
      { repo := s, appended := [c], returned := if done then some evidence.evidenceRef else none }

/-! ## store -/

/-- What `fileOpsRollup` comes to. -/
inductive Rollup
  | none
  | fails
  | page (page : PagePath) (text : Text)

/-- An attempt of the composer, with whether the linter rejects the page. -/
inductive ComposeAttempt
  | fails
  | text (text : Text) (rejected : Bool)

structure Page where
  path : Text
  attempt : Nat → ComposeAttempt := fun _ => .fails

inductive Classification
  /-- Topics: `fileTopicAssignments` writes pages and its record, and it may throw. -/
  | topics (writes : List (PagePath × Option Text)) (fails : Bool)
  /-- Pages, and the confidence, above the threshold or as `toFixed(2)` writes it. -/
  | pages (pages : List Page) (confident : Bool) (confidence : Text) (question : Option Text) (rejected : Bool)

structure StoreCall where
  input : StoreInput
  draw : Draw
  /-- For the append of a fallback. -/
  again : Draw
  fails : Bool := false
  configFails : Bool := false
  rollup : Rollup := .none
  scanFails : Bool := false
  /-- None where the classifier has thrown at every attempt. -/
  classification : Option Classification := none
  /-- The message of an error. -/
  message : Text := []
  stamp : Text := []
  placing : Placing := {}
  publication : Publication := {}
  placingAgain : Placing := {}
  publicationAgain : Publication := {}

/-- `/verbatim|exact words/i`. -/
def verbatimWords : Regex := Regex.words ["verbatim", "exact words"]

def storedVerbatim (input : StoreInput) : Bool :=
  input.verbatim.getD (Regex.test (Regex.ignoreCase env.unicode) verbatimWords input.content)

def normalizeMarkdownNotePath (relPath : Text) : Text :=
  let clean := (relPath.map fun c => if c = '\\' then '/' else c).dropWhile (· = '/')
  if ".md".toList.isSuffixOf clean then clean else clean ++ ".md".toList

/-- `MEANING_FOLDERS[folder]` is truthy. -/
def isMeaningFolder (folder : Text) : Bool :=
  (Vault.meaningFolders.map (·.1)).contains folder || Vault.objectNames.contains folder

def whereToFile : Text := "Where should this memory be filed? I could not classify it confidently.".toList

def classificationPending : Text :=
  "Saved, but automatic filing is pending (classification_unavailable) after 2 attempts.".toList

def notFiled (message : Text) : Text :=
  "I recorded the evidence but could not file it (".toList ++ message ++ "). Where should it go?".toList

def uncertaintyBlock (content question : Text) (evidence : EvidenceEntry) (confidence : Text) : Text :=
  Text.join ["## Unverified capture — ".toList ++ evidence.date ++ "  ^uc-".toList ++ evidence.anchor,
    "#filing/uncertain".toList, "> [!question] ".toList ++ singleLine question,
    "> Evidence: [[".toList ++ evidence.date ++ "#^".toList ++ evidence.anchor ++ "]] · confidence ".toList ++ confidence,
    [], "> [!quote] Captured content".toList, Text.join (quoted content), []]

namespace Repo

/-- The top candidate gets a block below the threshold; false where it throws. -/
def fileUncertain (s : Repo) (call : StoreCall) (page : Page) (evidence : EvidenceEntry) (question confidence : Text)
    (rejected : Bool) : Repo × Bool :=
  if isMeaningFolder ((Vault.segments page.path).headD []) = false then (s, false)
  else
    match s.work (env.join page.path) with
    | none => (s, false)
    | some current =>
      let separator := if endsWithNewline current then "\n".toList else "\n\n".toList
      let s := s.put (env.join page.path)
        (some (current ++ separator ++ uncertaintyBlock call.input.content question evidence confidence))
      if rejected ∨ s.immutable = false then (s, false)
      else s.commitFiling evidence.evidenceRef call.placing call.publication

/-- The attempts at a page that are left. -/
def composePage (s : Repo) (path : Text) : List ComposeAttempt → Repo × Bool
  | [] => (s, false)
  | .fails :: _ => (s, false)
  | .text text rejected :: rest =>
    let s := s.put (env.join path) (some text)
    if rejected = false ∧ s.immutable then (s, true) else s.composePage path rest

def composeRetries : Nat := 1

def composePages (s : Repo) : List Page → Repo × Bool
  | [] => (s, true)
  | page :: rest =>
    if isMeaningFolder ((Vault.segments page.path).headD []) = false then (s, false)
    else
      match s.composePage env page.path ((List.range (composeRetries + 1)).map page.attempt) with
      | (s, true) => s.composePages rest
      | (s, false) => (s, false)

end Repo

/-- Everything is reverted, the evidence recorded again, and filed as a question of the inbox. -/
def inboxAgain (s : Repo) (call : StoreCall) (c : Capture) (question : Text) : Outcome :=
  let again := call.input.capture (storedVerbatim env call.input) call.again
  let (retried, s) := s.discardChanges.append again
  let s := s.writeInboxStub call.stamp call.input.content question retried.evidenceRef
  let (s, done) := s.commitFiling retried.evidenceRef call.placingAgain call.publicationAgain
  { repo := s, appended := [c, again], returned := if done then some retried.evidenceRef else none }

/-- `commitFiling`, and the return of the evidence reference. -/
def filed (s : Repo) (call : StoreCall) (c : Capture) (evidence : EvidenceEntry) : Outcome :=
  let (s, done) := s.commitFiling evidence.evidenceRef call.placing call.publication
  { repo := s, appended := [c], returned := if done then some evidence.evidenceRef else none }

/-- `store` behind the classification. -/
def fileClassified (s : Repo) (call : StoreCall) (c : Capture) (evidence : EvidenceEntry) : Classification → Outcome
  | .topics writes fails =>
    let s := s.putAll writes
    if fails then { repo := s, appended := [c], returned := none }
    else if s.changes = [] then { repo := s, appended := [c], returned := some evidence.evidenceRef }
    else filed s call c evidence
  | .pages pages confident confidence question rejected =>
    match pages.map fun page => { page with path := normalizeMarkdownNotePath page.path } with
    | [] =>
      let s := s.writeInboxStub call.stamp call.input.content (question.getD whereToFile) evidence.evidenceRef
      filed s call c evidence
    | page :: rest =>
      if confident = false then
        match s.fileUncertain env call page evidence (question.getD whereToFile) confidence rejected with
        | (s, true) => { repo := s, appended := [c], returned := some evidence.evidenceRef }
        | (s, false) => inboxAgain env s call c (notFiled call.message)
      else
        match s.composePages env (page :: rest) with
        | (s, true) => filed s call c evidence
        | (s, false) => inboxAgain env s call c (notFiled call.message)

def store (s : Repo) (call : StoreCall) : Outcome :=
  if call.fails ∨ s.interrupted ∨ call.configFails then { repo := s, appended := [], returned := none }
  else
    let c := call.input.capture (storedVerbatim env call.input) call.draw
    let (evidence, s) := s.append c
    match call.rollup with
    | .fails => { repo := s, appended := [c], returned := none }
    | .page page text => filed (s.put page.path (some text)) call c evidence
    | .none =>
      if call.scanFails then { repo := s, appended := [c], returned := none }
      else
        match call.classification with
        | none => inboxAgain env s call c classificationPending
        | some classification => fileClassified env s call c evidence classification

/-! ## Runs -/

inductive Op
  | capture (call : CaptureCall)
  | store (call : StoreCall)

def Op.run (s : Repo) : Op → Outcome
  | .capture call => captureEvidence env s call
  | .store call => Custody.store env s call

/-- A call that is over. -/
structure Call where
  op : Op
  appended : List Capture
  returned : Option Text

structure World where
  repo : Repo
  calls : List Call := []

def exec (w : World) (op : Op) : World :=
  let outcome := op.run env w.repo
  { repo := outcome.repo, calls := w.calls ++ [{ op := op, appended := outcome.appended, returned := outcome.returned }] }

def run (files : Files) (ops : List Op) : World := ops.foldl (exec env) { repo := clone files }

end Zenod.Custody
