/-
The memory index (`vault/memoryIndex.ts`): one SQLite table of rows derived
from the vault, brought in line with it file by file (`refresh`) or from
nothing (`rebuild`).

The tables are lists; a row inserted gets the row id after the largest. What
is read of the vault is a function of its files, which stand still during a
call.
-/
import Zenod.Vault.Tree

namespace Zenod.Vault

open Text

/-! ## Rows -/

inductive HitKind | page | log | root
deriving DecidableEq, Repr

structure RowDraft where
  title : Text
  aliases : Text
  summary : Text
  body : Text
  kind : HitKind
  path : Text
  file : Text
deriving DecidableEq

/-- Where a row sits in the tree: its lineage, and for a log entry the page it was filed on. -/
structure Placing where
  lineage : Text
  filed : Text
deriving DecidableEq

structure Row extends RowDraft, Placing
deriving DecidableEq

def indexable (path : Text) : Bool :=
  path = treePath || (logFileDate path).isSome || (tierOf path = .meaning && !isIndexFile path)

def joinWith (mark : String) (ts : List Text) : Text := mark.toList.intercalate ts

/-! ## Log entries -/

structure LogCapture where
  anchor : Text
  title : Text
  source : Option Text
  content : Text
deriving DecidableEq

/-- `/^## (\d{2}:\d{2}) (.*?)\s+\^(e-[0-9a-f]{6})\s*$/`: title and anchor. -/
def captureHeading (line : Text) : Option (Text × Text) :=
  let time := (line.drop 3).take 5
  let rest := trimEnd (line.drop 9)
  let anchor := rest.rtake 8
  let before := rest.rdrop 9
  let title := trimEnd before
  if startsWith line "## ".toList ∧ time.length = 5 ∧ (line.drop 8).head? = some ' ' ∧
      ((List.range 5).all fun i => if i = 2 then time[i]? == some ':' else time[i]?.any Char.isDigit) ∧
      (rest.rdrop 8).getLast? = some '^' ∧ startsWith anchor "e-".toList ∧ anchor.length = 8 ∧
      ((anchor.drop 2).all fun c => c ∈ Evidence.hex) ∧ title.length < before.length ∧
      title.all (!isLineTerminator ·) then
    some (title, anchor)
  else none

/-- The lines under a heading: the last source, and the quoted lines. -/
def LogCapture.read (c : LogCapture × List Text) (line : Text) : LogCapture × List Text :=
  if startsWith line "- source: ".toList then ({ c.1 with source := some (trim (line.drop 10)) }, c.2)
  else if startsWith line "> ".toList then (c.1, c.2 ++ [line.drop 2])
  else c

def parseLogCapturesFrom : List Text → List LogCapture
  | [] => []
  | line :: rest =>
    match captureHeading line with
    | some (title, anchor) =>
      let under := rest.takeWhile fun l => (captureHeading l).isNone
      let read := under.foldl LogCapture.read ({ anchor := anchor, title := title, source := none, content := [] }, [])
      { read.1 with content := trim (join read.2) } :: parseLogCapturesFrom rest
    | none => parseLogCapturesFrom rest

def parseLogCaptures (raw : Text) : List LogCapture := parseLogCapturesFrom (lines raw)

/-! ## Pages -/

/-- `body.match(/^# +([^\n]+)/m)?.[1]`; a line starts behind any line terminator. -/
def firstHeading : Bool → Text → Option Text
  | _, [] => none
  | atStart, c :: t =>
    let heading := (t.dropWhile (· = ' ')).takeWhile (· ≠ '\n')
    if atStart ∧ c = '#' ∧ t.head? = some ' ' ∧ heading ≠ [] then some heading
    else if atStart ∧ c = '#' ∧ startsWith t "  ".toList then some " ".toList
    else firstHeading (isLineTerminator c) t

def strings : Option Value → List Text
  | some (.list items) => items.filterMap Value.text?
  | _ => []

/-- A text that is not there or empty gives way to another. -/
def orElse (t : Option Text) (other : Text) : Text := (t.filter (· ≠ [])).getD other

variable (lib : Library)

def pageRow (path raw : Text) : RowDraft :=
  let note := parseNote lib.yaml raw
  let data := note.frontmatter.getD []
  { title := ((data.text "title".toList).filter (trim · ≠ [])).getD
      (orElse ((firstHeading true note.body).map trim) (basenameOf path))
    aliases := joinWith " · " ((match data.text "aliases".toList with
      | some single => [single]
      | none => strings (data.get "aliases".toList)) ++ strings (data.get "tags".toList))
    summary := joinWith " " ([(data.text "summary".toList).getD [], (data.text "description".toList).getD []].filter (· ≠ []))
    body := note.body
    kind := .page
    path := path
    file := path }

def rootRow (path : Text) (node : TreeNode) : RowDraft :=
  { title := node.name, aliases := [], summary := node.summary, body := groupHeading node.kind, kind := .root
    path := node.path, file := path }

def logRow (path date : Text) (entry : LogCapture) : RowDraft :=
  { title := entry.title
    aliases := []
    summary := joinWith " " ([date, entry.source.getD []].filter (· ≠ []))
    body := entry.content
    kind := .log
    path := path ++ "#^".toList ++ entry.anchor
    file := path }

def rowsOfText (path raw : Text) : List RowDraft :=
  if path = treePath then (parseTree lib raw).nodes.map (rootRow path)
  else
    match logFileDate path with
    | some date => (parseLogCaptures raw).map (logRow path date)
    | none => [pageRow lib path raw]

/-- The rows of a file; one that cannot be read has none. -/
def rowsOf (v : VaultState) (path : Text) : List RowDraft :=
  match v.read path with
  | none => []
  | some raw => rowsOfText lib path raw

/-! ## Lineage of a row -/

def TreeIndex.pathOf (index : TreeIndex) (v : VaultState) (page : Text) : Text :=
  formatMemoryLineage { index.lineageOf lib v page with evidence := [] }

/-- `lineageResolver`: where a row of a kind, at a path, sits. -/
def lineageResolver (v : VaultState) (kind : HitKind) (path : Text) : Placing :=
  match v.buildTreeIndex lib with
  | none => { lineage := [], filed := [] }
  | some index =>
    if kind = .log then
      let filed := (index.placedCitersOf lib v path).headD []
      { lineage := if filed = [] then [] else index.pathOf lib v filed, filed := filed }
    else { lineage := index.pathOf lib v path, filed := [] }

def RowDraft.resolve (v : VaultState) (row : RowDraft) : Row :=
  { row, lineageResolver lib v row.kind row.path with }

/-! ## The index -/

structure Doc extends Row where
  rowid : Nat
deriving DecidableEq

structure KnownFile where
  path : Text
  mtimeMs : Rat
  size : Nat
deriving DecidableEq

structure MemoryIndex where
  docs : List Doc := []
  files : List KnownFile := []

def nextRowid (docs : List Doc) : Nat := (docs.map (·.rowid)).foldr max 0 + 1

def insertRow (docs : List Doc) (row : Row) : List Doc := docs ++ [{ row with rowid := nextRowid docs }]

/-- `DELETE FROM docs WHERE file = ?`. -/
def deleteRows (docs : List Doc) (path : Text) : List Doc := docs.filter (·.file ≠ path)

def deleteFile (files : List KnownFile) (path : Text) : List KnownFile := files.filter (·.path ≠ path)

def upsertFile (files : List KnownFile) (file : KnownFile) : List KnownFile :=
  if files.any (·.path = file.path) then files.map fun f => if f.path = file.path then file else f
  else files ++ [file]

structure Stale extends Placing where
  rowid : Nat
deriving DecidableEq

/-- `UPDATE docs SET lineage = ?, filed = ? WHERE rowid = ?`. -/
def updateRow (docs : List Doc) (stale : Stale) : List Doc :=
  docs.map fun d => if d.rowid = stale.rowid then { d with lineage := stale.lineage, filed := stale.filed } else d

/-- A file to index, as `stat` shows it. -/
def VaultState.known (v : VaultState) (path : Text) : Option KnownFile :=
  (v.file path).map fun f => { path := path, mtimeMs := f.mtimeMs, size := f.size }

def VaultState.indexed (v : VaultState) : List Text := v.listMarkdownFiles.filter indexable

/-- The files that are new or whose time or size differs from what is known; all of them on a full run. -/
def MemoryIndex.changed (index : MemoryIndex) (full : Bool) (v : VaultState) : List KnownFile :=
  (v.indexed.filterMap v.known).filter fun file =>
    full || index.files.find? (·.path = file.path) ≠ some file

def MemoryIndex.removed (index : MemoryIndex) (full : Bool) (v : VaultState) : List Text :=
  (index.files.map (·.path)).filter fun path => full || !v.indexed.contains path

/-- The rows outside some files whose lineage or filed page moved. -/
def MemoryIndex.relineage (index : MemoryIndex) (v : VaultState) (skip : List Text) : List Stale :=
  index.docs.filterMap fun d =>
    let next := lineageResolver lib v d.kind d.path
    if skip.contains d.file ∨ (next.lineage = d.lineage ∧ next.filed = d.filed) then none
    else some { next with rowid := d.rowid }

/-- One file's rows written anew. -/
def MemoryIndex.write (v : VaultState) (index : MemoryIndex) (file : KnownFile) : MemoryIndex where
  docs := ((rowsOf lib v file.path).map (RowDraft.resolve lib v)).foldl insertRow (deleteRows index.docs file.path)
  files := upsertFile index.files file

def MemoryIndex.remove (index : MemoryIndex) (path : Text) : MemoryIndex where
  docs := deleteRows index.docs path
  files := deleteFile index.files path

/-- The transaction up to its updates: removed files go, changed files are written anew. -/
def MemoryIndex.replace (index : MemoryIndex) (full : Bool) (v : VaultState) : MemoryIndex :=
  (index.changed full v).foldl (MemoryIndex.write lib v)
    ((index.removed full v).foldl MemoryIndex.remove (bif full then {} else index))

def MemoryIndex.stale (index : MemoryIndex) (full : Bool) (v : VaultState) : List Stale :=
  bif full then [] else index.relineage lib v ((index.changed full v).map (·.path))

def MemoryIndex.sync (index : MemoryIndex) (full : Bool) (v : VaultState) : MemoryIndex :=
  if full = false ∧ index.changed full v = [] ∧ index.removed full v = [] then index
  else
    let replaced := index.replace lib full v
    { replaced with docs := (index.stale lib full v).foldl updateRow replaced.docs }

def MemoryIndex.refresh (index : MemoryIndex) (v : VaultState) : MemoryIndex := index.sync lib false v

def MemoryIndex.rebuild (index : MemoryIndex) (v : VaultState) : MemoryIndex := index.sync lib true v

end Zenod.Vault
