/-
What an answer has read (`engine/retrievalCoverage.ts`): the pages of entry
searches, the passages of notes, and what is reported of them. The passages
are those of `ops/passage.ts`, the pages those of `searchMemoryEntryPage`.

`covers_of_readTo`: passages without a gap leave nothing out.
`queries_agree`: inputs with one key select the same entries.
-/
import Zenod.Engine.Accounting
import Zenod.Engine.EntryPagination
import Zenod.Engine.Projection
import Zenod.Lib.Regex

namespace Zenod.Engine

open Text Bytes
open Evidence (Surface MemoryContentType)

/-! ## The input of an entry search -/

/-- A property of the input. -/
inductive InputField
  | query (t : Text)
  | source (s : Surface)
  | contentType (c : MemoryContentType)
  | sourceId (t : Text)
  | capturedAfter (t : Text)
  | capturedBefore (t : Text)
  | order (o : EntryOrder)
  | limit (n : Int)
  | cursor (t : Text)
  | exhaustive (b : Bool)
deriving DecidableEq

def InputField.name : InputField → Text
  | .query _ => "query".toList
  | .source _ => "source".toList
  | .contentType _ => "contentType".toList
  | .sourceId _ => "sourceId".toList
  | .capturedAfter _ => "capturedAfter".toList
  | .capturedBefore _ => "capturedBefore".toList
  | .order _ => "order".toList
  | .limit _ => "limit".toList
  | .cursor _ => "cursor".toList
  | .exhaustive _ => "exhaustive".toList

def InputField.json : InputField → Json
  | .query t | .sourceId t | .capturedAfter t | .capturedBefore t | .cursor t => .str t
  | .source s => .str s.text
  | .contentType c => .str c.name
  | .order o => .str o.text
  | .limit n => .num (.ofInt n)
  | .exhaustive b => .bool b

/-- The properties that are set, in the order in which they were. -/
structure EntrySearchInput where
  fields : List InputField
  nodup : (fields.map InputField.name).Nodup
deriving DecidableEq

namespace EntrySearchInput

def query? (i : EntrySearchInput) : Option Text := i.fields.findSome? fun
  | .query t => some t
  | _ => none

def source? (i : EntrySearchInput) : Option Surface := i.fields.findSome? fun
  | .source s => some s
  | _ => none

def contentType? (i : EntrySearchInput) : Option MemoryContentType := i.fields.findSome? fun
  | .contentType c => some c
  | _ => none

def sourceId? (i : EntrySearchInput) : Option Text := i.fields.findSome? fun
  | .sourceId t => some t
  | _ => none

def capturedAfter? (i : EntrySearchInput) : Option Text := i.fields.findSome? fun
  | .capturedAfter t => some t
  | _ => none

def capturedBefore? (i : EntrySearchInput) : Option Text := i.fields.findSome? fun
  | .capturedBefore t => some t
  | _ => none

def order? (i : EntrySearchInput) : Option EntryOrder := i.fields.findSome? fun
  | .order o => some o
  | _ => none

def limit? (i : EntrySearchInput) : Option Int := i.fields.findSome? fun
  | .limit n => some n
  | _ => none

def cursor? (i : EntrySearchInput) : Option Text := i.fields.findSome? fun
  | .cursor t => some t
  | _ => none

def exhaustive? (i : EntrySearchInput) : Option Bool := i.fields.findSome? fun
  | .exhaustive b => some b
  | _ => none

/-- `JSON.stringify(input)`. -/
def text (i : EntrySearchInput) : Text := (Json.obj (i.fields.map fun f => (f.name, f.json))).print

/-- A cursor that is given and not empty. -/
def continues (i : EntrySearchInput) : Bool := (i.cursor?.filter (· ≠ [])).isSome

/-- `{ ...input, [name]: value }`. -/
def assign (i : EntrySearchInput) (f : InputField) : EntrySearchInput where
  fields := if f.name ∈ i.fields.map InputField.name then i.fields.map fun g => if g.name = f.name then f else g
    else i.fields ++ [f]
  nodup := by
    split
    next =>
      have hnames : (i.fields.map fun g => if g.name = f.name then f else g).map InputField.name =
          i.fields.map InputField.name := by
        rw [List.map_map]
        refine List.map_congr_left fun g _ => ?_
        simp only [Function.comp_apply]
        split
        next h => exact h.symm
        next => rfl
      rw [hnames]
      exact i.nodup
    next h =>
      rw [List.map_append, List.nodup_append]
      refine ⟨i.nodup, List.nodup_singleton _, fun a ha b hb => ?_⟩
      rw [List.map_singleton, List.mem_singleton] at hb
      exact fun hab => h (hb ▸ hab ▸ ha)

/-- What the page of a search does not depend on. -/
def isPaging : InputField → Bool
  | .limit _ | .cursor _ | .exhaustive _ => true
  | _ => false

/-- The filters of the input, in the order of their names. -/
def filters (i : EntrySearchInput) : EntrySearchInput where
  fields := (i.fields.filter fun f => !isPaging f).insertionSort fun f g => le f.name g.name = true
  nodup := by
    have hperm := (List.perm_insertionSort (fun f g : InputField => le f.name g.name = true)
      (i.fields.filter fun f => !isPaging f)).map InputField.name
    exact hperm.nodup_iff.2 (i.nodup.sublist (List.filter_sublist.map _))

/-- The name a search goes by. -/
def key (i : EntrySearchInput) : Text := i.filters.text

def toQuery (i : EntrySearchInput) : MemoryEntryQuery where
  query := i.query?
  source := i.source?
  contentType := i.contentType?
  sourceId := i.sourceId?
  capturedAfter := i.capturedAfter?
  capturedBefore := i.capturedBefore?
  order := some (i.order?.getD .newest)
  limit := some (i.limit?.getD 20)

end EntrySearchInput

/-! ## Inputs with one key -/

def inputNames : List Text :=
  ["query", "source", "contentType", "sourceId", "capturedAfter", "capturedBefore", "order", "limit", "cursor",
    "exhaustive"].map String.toList

theorem InputField.name_eq (f : InputField) : inputNames[f.ctorIdx]? = some f.name := by
  cases f <;> rfl

theorem InputField.ctorIdx_eq {f g : InputField} (h : f.name = g.name) : f.ctorIdx = g.ctorIdx := by
  have hnodup : inputNames.Nodup := by decide
  have hf := f.name_eq
  exact (List.getElem?_inj (List.getElem?_eq_some_iff.1 hf).1 hnodup).1 (by rw [hf, h, g.name_eq])

theorem InputField.ext {f g : InputField} (hname : f.name = g.name) (hjson : f.json = g.json) : f = g := by
  have hidx := ctorIdx_eq hname
  cases f <;> cases g <;> first
    | cases hidx; done
    | exact congrArg _ (Json.str.inj hjson)
    | exact congrArg _ (Json.bool.inj hjson)
    | exact congrArg _ (surfaceText_inj (Json.str.inj hjson))
    | exact congrArg _ (contentTypeName_inj (Json.str.inj hjson))
    | exact congrArg _ (orderText_inj (Json.str.inj hjson))
    | exact congrArg _ (Json.ofInt_inj hjson)

namespace EntrySearchInput

variable {i j : EntrySearchInput}

theorem text_injective (h : i.text = j.text) : i = j := by
  have hfields := Json.obj.inj (Json.print_injective h)
  have hsame : i.fields = j.fields :=
    List.map_injective_iff.2 (fun f g hfg => InputField.ext (Prod.mk.inj hfg).1 (Prod.mk.inj hfg).2) hfields
  cases i
  cases j
  cases hsame
  rfl

section
variable {α : Type} {f : InputField → Option α} {n : Text}

/-- A property is found wherever it stands. -/
theorem findSome?_eq_some_iff {fields : List InputField} (hnodup : (fields.map InputField.name).Nodup)
    (hf : ∀ g a, f g = some a → g.name = n) {a : α} : fields.findSome? f = some a ↔ ∃ g ∈ fields, f g = some a := by
  induction fields with
  | nil => simp
  | cons g rest ih =>
    rw [List.map_cons, List.nodup_cons] at hnodup
    rw [List.findSome?_cons]
    cases hg : f g with
    | none => simp only [ih hnodup.2, List.mem_cons, exists_eq_or_imp, hg, reduceCtorEq, false_or]
    | some b =>
      constructor
      · exact fun h => ⟨g, List.mem_cons_self, hg.trans h⟩
      · rintro ⟨g', hg', ha⟩
        rcases List.mem_cons.1 hg' with rfl | hrest
        · exact hg.symm.trans ha
        · have hname : g'.name = g.name := (hf g' a ha).trans (hf g b hg).symm
          exact absurd (hname ▸ List.mem_map_of_mem hrest) hnodup.1

theorem findSome?_filters (i : EntrySearchInput) (hf : ∀ g a, f g = some a → g.name = n ∧ isPaging g = false) :
    i.filters.fields.findSome? f = i.fields.findSome? f := by
  have hname : ∀ g a, f g = some a → g.name = n := fun g a h => (hf g a h).1
  ext a
  rw [findSome?_eq_some_iff i.filters.nodup hname, findSome?_eq_some_iff i.nodup hname]
  refine exists_congr fun g => and_congr_left fun ha => ?_
  unfold filters
  simp only [List.mem_insertionSort, List.mem_filter, (hf g a ha).2, Bool.not_false, and_true]

theorem findSome?_eq (h : i.key = j.key) (hf : ∀ g a, f g = some a → g.name = n ∧ isPaging g = false) :
    i.fields.findSome? f = j.fields.findSome? f := by
  rw [← findSome?_filters i hf, text_injective h, findSome?_filters j hf]

end

/-- **Inputs with one key select the same.** -/
theorem queries_agree (host : Host) (h : i.key = j.key) (entries : List CatalogEntry) :
    selectMemoryEntries host entries i.toQuery = selectMemoryEntries host entries j.toQuery := by
  have hquery : i.query? = j.query? := findSome?_eq (n := "query".toList) h fun g a hg => by
    cases g <;> cases hg
    exact ⟨rfl, rfl⟩
  have hsource : i.source? = j.source? := findSome?_eq (n := "source".toList) h fun g a hg => by
    cases g <;> cases hg
    exact ⟨rfl, rfl⟩
  have htype : i.contentType? = j.contentType? := findSome?_eq (n := "contentType".toList) h fun g a hg => by
    cases g <;> cases hg
    exact ⟨rfl, rfl⟩
  have hid : i.sourceId? = j.sourceId? := findSome?_eq (n := "sourceId".toList) h fun g a hg => by
    cases g <;> cases hg
    exact ⟨rfl, rfl⟩
  have hafter : i.capturedAfter? = j.capturedAfter? := findSome?_eq (n := "capturedAfter".toList) h fun g a hg => by
    cases g <;> cases hg
    exact ⟨rfl, rfl⟩
  have hbefore : i.capturedBefore? = j.capturedBefore? := findSome?_eq (n := "capturedBefore".toList) h fun g a hg => by
    cases g <;> cases hg
    exact ⟨rfl, rfl⟩
  have horder : i.order? = j.order? := findSome?_eq (n := "order".toList) h fun g a hg => by
    cases g <;> cases hg
    exact ⟨rfl, rfl⟩
  have hsame : i.toQuery = { j.toQuery with limit := i.toQuery.limit } := by
    unfold toQuery
    rw [hquery, hsource, htype, hid, hafter, hbefore, horder]
  rw [hsame]
  rfl

end EntrySearchInput

/-! ## The result of an entry search -/

/-- What is shown of an entry that was found. -/
structure EntrySummary where
  evidenceRef : Text
  path : Text
  anchor : Text
  title : Text
  source : Surface
  contentType : Option MemoryContentType
  capturedAt : Text
  sourceId : Option Text
  chars : Nat
  snippet : Text
  url : Text
  provider : VaultProvider
  revisionId : Option Text
  githubUrl : Option Text
deriving DecidableEq

def memoryEntrySummary (entry : CatalogEntry) : EntrySummary where
  evidenceRef := entry.evidenceRef
  path := entry.path
  anchor := entry.anchor
  title := entry.title
  source := entry.source
  contentType := entry.contentType
  capturedAt := entry.capturedAt
  sourceId := entry.sourceId
  chars := utf16Length entry.content
  snippet := takeUnits 280 entry.content
  url := entry.url
  provider := entry.provider
  revisionId := entry.revisionId.filter (· ≠ [])
  githubUrl := entry.githubUrl

def memoryEntrySummaries (entries : List CatalogEntry) : List EntrySummary := entries.map memoryEntrySummary

structure EntryPagination where
  hasMore : Bool
  nextCursor : Option Text
  snapshot : Text
  matchedEntries : Nat
  scannedEntries : Nat
  scannedVaultEntries : Nat
  scannedReceiptJobs : Nat
  receiptEnrichmentAvailable : Bool
  scope : Text
deriving DecidableEq

structure EntrySearchResult where
  entries : List EntrySummary
  pagination : EntryPagination
deriving DecidableEq

/-- What a search looks through: the entries of the vault merged with the receipts of the tenant. -/
structure EntryCatalog where
  merged : List CatalogEntry
  vaultEntries : Nat
  /-- How many receipts there are, if there is a store of them. -/
  receiptJobs : Option Nat
  memoryScope : Text
deriving DecidableEq

def searchMemoryEntryPage (host : Host) (catalog : EntryCatalog) (input : EntrySearchInput) :
    Except EntryError EntrySearchResult := do
  let page ← paginateMemoryEntries host catalog.merged input.toQuery catalog.memoryScope input.cursor?
  return {
    entries := memoryEntrySummaries page.entries
    pagination := {
      hasMore := page.hasMore, nextCursor := page.nextCursor, snapshot := page.snapshot
      matchedEntries := page.matchedEntries, scannedEntries := page.scannedEntries
      scannedVaultEntries := catalog.vaultEntries, scannedReceiptJobs := catalog.receiptJobs.getD 0
      receiptEnrichmentAvailable := catalog.receiptJobs.isSome
      scope := "all-local-vault-evidence-and-retained-tenant-receipts".toList } }

/-! ## Passages -/

inductive NotePart | body | frontmatter
deriving DecidableEq

/-- `start` to `stop` is what was read, in UTF-16 units of the whole text. -/
structure Extent where
  start : Nat
  stop : Nat
  total : Nat
  scopeStart : Nat
  scopeStop : Nat
  sectionStart : Nat
  sectionStop : Nat
deriving DecidableEq

structure NotePassage where
  source : VaultSourceRef
  readPath : Text
  part : NotePart
  frontmatterChars : Nat
  version : Text
  identity : Text
  extent : Extent
  body : Text
  truncated : Bool
  omittedBefore : Bool
  nextCursor : Option Text
  queryMatched : Option Bool := none
  scopeEvidenceRefs : Option (List Text) := none
deriving DecidableEq

def byStart (passages : List NotePassage) : List NotePassage :=
  passages.insertionSort fun a b => a.extent.start ≤ b.extent.start

/-- How far the passages lead from where one is, and whether they leave a gap. -/
def readTo (stop : Nat) : List NotePassage → Nat × Bool
  | [] => (stop, false)
  | p :: rest =>
    let r := readTo (max stop p.extent.stop) rest
    (r.1, decide (stop < p.extent.start) || r.2)

/-- **Passages without a gap leave nothing out.** -/
theorem covers_of_readTo {stop : Nat} {passages : List NotePassage} (h : (readTo stop passages).2 = false) {x : Nat}
    (hstart : stop ≤ x) (hstop : x < (readTo stop passages).1) :
    ∃ p ∈ passages, p.extent.start ≤ x ∧ x < p.extent.stop := by
  induction passages generalizing stop with
  | nil => exact absurd hstop (Nat.not_lt.2 hstart)
  | cons p rest ih =>
    simp only [readTo, Bool.or_eq_false_iff, decide_eq_false_iff_not] at h hstop
    by_cases hread : x < p.extent.stop
    · exact ⟨p, List.mem_cons_self, by omega, hread⟩
    · obtain ⟨q, hq, hx⟩ := ih h.2 (by omega) hstop
      exact ⟨q, List.mem_cons_of_mem p hq, hx⟩

/-! ## What is reported -/

inductive Continuation
  | searchEntries (input : EntrySearchInput)
  | readNote (path : Text) (cursor : Option Text)
deriving DecidableEq

structure SearchReport where
  query : EntrySearchInput
  snapshot : Text
  scope : Text
  matchedEntries : Nat
  enumeratedEntries : Nat
  enumerationComplete : Bool
  unreadEvidenceRefs : List Text
  nextCursor : Option Text
  receiptEnrichmentAvailable : Bool
deriving DecidableEq

structure ReadReport where
  path : Text
  identity : Text
  version : Text
  start : Nat
  stop : Nat
  sectionStart : Nat
  sectionStop : Nat
  complete : Bool
deriving DecidableEq

inductive CoverageStatus | completeBoundedScope | partially | focused
deriving DecidableEq

inductive CoverageScope | pinnedEvidence | queriedLocalMemory
deriving DecidableEq

def coverageContract : Text := "ask-coverage-v1".toList

def supportPolicy : Text := "only-successfully-read-spans; citations-and-search-snippets-are-not-claim-support".toList

structure AnswerCoverage where
  contract : Text
  exhaustiveRequested : Bool
  status : CoverageStatus
  scope : CoverageScope
  entryPageBudget : Nat
  entryPagesRead : Nat
  entryPageAttempts : Nat
  passageReadBudget : Nat
  passageReadAttempts : Nat
  searches : List SearchReport
  successfulReads : List ReadReport
  pinnedEvidenceRefs : List Text
  failedReads : List Text
  continuation : List Continuation
  conversationHistorySearched : Bool
  supportPolicy : Text
deriving DecidableEq

/-! ## The tracker -/

def askEntryPageBudget : Nat := 8
def askPassageReadBudget : Nat := 64

open Regex in
/-- The question asks for everything there is. -/
def exhaustiveMemoryQuestion (unicode : Unicode) (question : Text) : Bool :=
  test (ignoreCase unicode)
    (wholeWord [word "exhaustive",
      sequence [word "complete ", words ["list", "audit", "history", "inventory"]], word "audit",
      sequence [word "every ", words ["memory", "entry", "capture", "note"]],
      sequence [word "all ", opt (words ["my ", "the "]), words ["memories", "entries", "captures", "notes", "voice notes"]]])
    question

/-- A search, from its last restart on. -/
structure Search where
  query : EntrySearchInput
  last : EntrySearchResult
  refs : List Text
  startedAt : Nat
deriving DecidableEq

structure RetrievalCoverage where
  pages : Nat := 0
  pageAttempts : Nat := 0
  readAttempts : Nat := 0
  exhaustive : Bool
  chats : Bool := false
  failedReads : List Text := []
  searches : MapOf Search := []
  /-- The passages, each with its number in the sequence. -/
  passages : List (NotePassage × Nat) := []
  sequence : Nat := 0
  pendingSearches : MapOf EntrySearchInput := []
  pinned : List Text

namespace RetrievalCoverage

def new (unicode : Unicode) (question : Text) (pinned : List Text) : RetrievalCoverage where
  exhaustive := exhaustiveMemoryQuestion unicode question
  pinned := pinned

variable (t : RetrievalCoverage)

def reserveEntryPage : RetrievalCoverage × Bool :=
  if askEntryPageBudget ≤ t.pageAttempts then (t, false) else ({ t with pageAttempts := t.pageAttempts + 1 }, true)

def reserveRead : RetrievalCoverage × Bool :=
  if askPassageReadBudget ≤ t.readAttempts then (t, false) else ({ t with readAttempts := t.readAttempts + 1 }, true)

/-- The search a page belongs to, and the sequence with it. A page of another snapshot, and one without a cursor,
restarts the search; so does the first page, whatever its cursor. -/
def searchOf (input : EntrySearchInput) (result : EntrySearchResult) : Search × Nat :=
  match (t.searches.get input.key).filter fun s =>
      decide (s.last.pagination.snapshot = result.pagination.snapshot) && input.continues with
  | some search => (search, t.sequence)
  | none => ({ query := input.filters, last := result, refs := [], startedAt := t.sequence + 1 }, t.sequence + 1)

def recordSearch (input : EntrySearchInput) (result : EntrySearchResult) : RetrievalCoverage :=
  let s := t.searchOf input result
  { t with
    pages := t.pages + 1
    pendingSearches := t.pendingSearches.filter (·.1 ≠ input.text)
    exhaustive := t.exhaustive || decide (input.exhaustive? = some true)
    sequence := s.2
    searches := t.searches.set input.key
      { s.1 with last := result, refs := (result.entries.map EntrySummary.evidenceRef).foldl addTo s.1.refs } }

def failSearch (input : EntrySearchInput) (message : Text) : RetrievalCoverage :=
  { t with failedReads := addTo t.failedReads message, pendingSearches := t.pendingSearches.set input.text input }

/-- A search whose pages are discarded. -/
def discard (s : Search) : Search :=
  { s with
    refs := []
    last := { s.last with pagination := { s.last.pagination with hasMore := true, nextCursor := none } } }

def snapshotChangedMessage : Text := "Entry snapshot changed during retrieval; discard old pages and restart.".toList

def invalidate (query : EntrySearchInput) : RetrievalCoverage :=
  { t with
    searches := t.searches.map fun s => if s.2.query.text = query.text then (s.1, discard s.2) else s
    failedReads := addTo t.failedReads snapshotChangedMessage }

def recordRead (passage : NotePassage) : RetrievalCoverage :=
  { t with passages := t.passages ++ [(passage, t.sequence + 1)], sequence := t.sequence + 1 }

/-- The passages of an entry that were read behind a point of the sequence. -/
def readsSince (ref : Text) (since : Nat) : List NotePassage :=
  (t.passages.filter fun p => since < p.2 && p.1.identity = ref && p.1.part = .body).map (·.1)

/-- The passages of the last version read, by where they start. -/
def currentReads (reads : List NotePassage) : List NotePassage :=
  byStart (reads.filter fun p => some p.version = reads.getLast?.map NotePassage.version)

def entryComplete (ref : Text) (since : Nat) : Bool :=
  match currentReads (t.readsSince ref since) with
  | [] => false
  | first :: rest =>
    let r := readTo first.extent.sectionStart (first :: rest)
    !r.2 && decide (first.extent.sectionStop ≤ r.1)

/-! ## The result -/

def bodyPassages : List NotePassage := (t.passages.map (·.1)).filter fun p => p.part = .body

def latestVersions : MapOf Text := t.bodyPassages.foldl (fun m p => m.set p.identity p.version) []

/-- Passages by the name each goes by. -/
def groupBy (name : NotePassage → Text) (passages : List NotePassage) : MapOf (List NotePassage) :=
  passages.foldl (fun m p => m.set (name p) ((m.get (name p)).getD [] ++ [p])) []

def versionKey (p : NotePassage) : Text := (Json.arr [.str p.identity, .str p.version]).print

def readReport (complete : Bool) (p : NotePassage) : ReadReport where
  path := p.source.path
  identity := p.identity
  version := p.version
  start := p.extent.start
  stop := p.extent.stop
  sectionStart := p.extent.sectionStart
  sectionStop := p.extent.sectionStop
  complete := complete

/-- The cursor behind the last passage, unless one is missing before it. -/
def goesOn (gap : Bool) (last : NotePassage) : Option Text := if gap then none else last.nextCursor.filter (· ≠ [])

/-- What is reported of the passages of one version, and how its reading goes on. -/
def reportGroup (group : List NotePassage) : List ReadReport × List Continuation :=
  match byStart group with
  | [] => ([], [])
  | first :: rest =>
    let sorted := first :: rest
    let r := readTo first.extent.sectionStart sorted
    let complete := !r.2 && decide (first.extent.sectionStop ≤ r.1)
    let last := sorted.getLast (List.cons_ne_nil _ _)
    let path := if includes first.identity "#^".toList then first.identity else first.readPath
    (sorted.map (readReport complete),
      if !complete && t.latestVersions.get first.identity = some first.version then
        [match goesOn r.2 last with
        | some cursor => .readNote last.readPath (some cursor)
        | none => .readNote path none]
      else [])

/-- How the reading of a file goes on. -/
def fileContinuation (path : Text) (reads : List NotePassage) : Option Continuation :=
  match reads.getLast? with
  | none => none
  | some latest =>
    let sorted := byStart (reads.filter fun p => p.version = latest.version)
    let r := readTo latest.extent.scopeStart sorted
    if r.2 || r.1 < latest.extent.scopeStop then some (.readNote path (sorted.getLast?.bind (goesOn r.2))) else none

def fileContinuations (continuation : List Continuation) : List Continuation :=
  let reads := t.bodyPassages.filter fun p => !p.readPath.contains '#'
  (groupBy NotePassage.readPath reads).foldl (fun cs file =>
    match fileContinuation file.1 file.2 with
    | some c => if cs.contains c then cs else cs ++ [c]
    | none => cs) continuation

def reportSearch (s : Search) : SearchReport :=
  let p := s.last.pagination
  { query := s.query, snapshot := p.snapshot, scope := p.scope, matchedEntries := p.matchedEntries
    enumeratedEntries := s.refs.length
    enumerationComplete := !p.hasMore && decide (s.refs.length = p.matchedEntries)
    unreadEvidenceRefs := s.refs.filter fun ref => !t.entryComplete ref s.startedAt
    nextCursor := p.nextCursor, receiptEnrichmentAvailable := p.receiptEnrichmentAvailable }

/-- The path of a note that is to be read. -/
def readPath? : Continuation → Option Text
  | .readNote path _ => some path
  | .searchEntries _ => none

def searchContinuations (continuation : List Continuation) (r : SearchReport) : List Continuation :=
  let query := r.query.assign (.exhaustive true)
  let continuation :=
    if r.enumerationComplete then continuation
    else continuation ++ [.searchEntries ((r.nextCursor.filter (· ≠ [])).elim query fun c => query.assign (.cursor c))]
  r.unreadEvidenceRefs.foldl (fun cs ref =>
    if cs.any fun c => readPath? c = some ref then cs else cs ++ [.readNote ref none]) continuation

def result : AnswerCoverage :=
  let groups := (groupBy versionKey t.bodyPassages).map fun g => t.reportGroup g.2
  let pending := t.pendingSearches.map fun s => Continuation.searchEntries s.2
  let searches := t.searches.map fun s => t.reportSearch s.2
  let completed :=
    if 0 < searches.length then searches.all fun s => s.enumerationComplete && s.unreadEvidenceRefs.isEmpty
    else decide (0 < t.pinned.length)
  { contract := coverageContract
    exhaustiveRequested := t.exhaustive
    status :=
      if t.exhaustive then if completed && t.failedReads.isEmpty then .completeBoundedScope else .partially else .focused
    scope := if 0 < t.pinned.length then .pinnedEvidence else .queriedLocalMemory
    entryPageBudget := askEntryPageBudget, entryPagesRead := t.pages, entryPageAttempts := t.pageAttempts
    passageReadBudget := askPassageReadBudget, passageReadAttempts := t.readAttempts
    searches := searches, successfulReads := groups.flatMap (·.1), pinnedEvidenceRefs := t.pinned
    failedReads := t.failedReads
    continuation := searches.foldl searchContinuations (t.fileContinuations (pending ++ groups.flatMap (·.2)))
    conversationHistorySearched := t.chats, supportPolicy := supportPolicy }

end RetrievalCoverage

end Zenod.Engine
