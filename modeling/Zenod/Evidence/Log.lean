/-
The evidence log: one markdown file a day under `Log/`, to which captures are
appended, and under which the pages they were filed to are recorded
(`engine/evidence.ts`, and the `filed:` lines of `engine/treePlacement.ts`).

The vault is a map from paths to texts. `appendEvidence` and
`appendFiledLines` write it, `parseEvidenceFile`, `getEvidenceEntry` and
`parseFiledLines` read it back. The random bytes and the clock reading of a
call are its arguments.
-/
import Zenod.Lib.Text

namespace Zenod.Evidence

open Text

/-! ## Vault and clock -/

/-- The files of a vault; a path it does not hold has no text. -/
abbrev Vault := Text → Option Text

def Vault.write (vault : Vault) (path text : Text) : Vault :=
  fun p => if p = path then some text else vault p

/-- A `Date`: its UTC day, and the wall clock's hours and minutes. -/
structure Moment where
  year : Int
  month : Nat
  day : Nat
  hours : Nat
  minutes : Nat
  year_le : year.natAbs ≤ 275760
  month_le : 1 ≤ month ∧ month ≤ 12
  day_le : 1 ≤ day ∧ day ≤ 31
  hours_lt : hours < 24
  minutes_lt : minutes < 60
deriving DecidableEq

def Moment.sample : Moment := ⟨2026, 11, 1, 10, 5, by decide, by decide, by decide, by decide, by decide⟩

/-- `String(n).padStart(width, "0")`, for an `n` of at most `width` digits. -/
def padStart (width n : Nat) : Text := (List.range width).reverse.map fun i => Js.hexDigit (n / 10 ^ i % 10)

/-- The year as `toISOString` writes it: four digits, or a sign and six. -/
def isoYear (year : Int) : Text :=
  if 0 ≤ year ∧ year ≤ 9999 then padStart 4 year.natAbs
  else (if year < 0 then '-' else '+') :: padStart 6 year.natAbs

/-- `now.toISOString().slice(0, 10)`. -/
def todayString (now : Moment) : Text :=
  (isoYear now.year ++ "-".toList ++ padStart 2 now.month ++ "-".toList ++ padStart 2 now.day).take 10

def timeOf (now : Moment) : Text := padStart 2 now.hours ++ ":".toList ++ padStart 2 now.minutes

def logPathOf (date : Text) : Text := "Log/".toList ++ date ++ ".md".toList

/-! ## Metadata -/

inductive Surface | cli | mcp | whatsapp | telegram | web | drive | selftest
deriving DecidableEq, Repr

def Surface.text : Surface → Text
  | .cli => "cli".toList
  | .mcp => "mcp".toList
  | .whatsapp => "whatsapp".toList
  | .telegram => "telegram".toList
  | .web => "web".toList
  | .drive => "drive".toList
  | .selftest => "selftest".toList

def surfaces : List Surface := [.cli, .mcp, .whatsapp, .telegram, .web, .drive, .selftest]

inductive MemoryContentType | text | voiceNote | audio | image | screenshot | pdf | document | link
deriving DecidableEq, Repr

def MemoryContentType.name : MemoryContentType → Text
  | .text => "text".toList
  | .voiceNote => "voice_note".toList
  | .audio => "audio".toList
  | .image => "image".toList
  | .screenshot => "screenshot".toList
  | .pdf => "pdf".toList
  | .document => "document".toList
  | .link => "link".toList

def contentTypes : List MemoryContentType :=
  [.text, .voiceNote, .audio, .image, .screenshot, .pdf, .document, .link]

structure EvidenceMetadata where
  contentType : Option MemoryContentType := none
  capturedAt : Option Text := none
  sourceId : Option Text := none
deriving DecidableEq

/-- A string that is not there counts as an empty one, in a condition. -/
def truthy (value : Option Text) : Option Text := value.filter (· ≠ [])

/-- `value.split("\n").map(trim).filter(Boolean).join(" ")`. -/
def singleLine (value : Text) : Text := [' '].intercalate (((lines value).map trim).filter (· ≠ []))

/-! ## Appending a capture -/

def entryTitle (content : Text) : Text :=
  let firstLine := (lines content).headD []
  let words := [' '].intercalate ((words firstLine).take 8)
  let title := if 60 < utf16Length words then takeUnits 57 words ++ "...".toList else words
  if title = [] then "Capture".toList else title

/-- `randomBytes(3)`. -/
abbrev RandomBytes := UInt8 × UInt8 × UInt8

def hexOf (byte : UInt8) : Text := [Js.hexDigit (byte.toNat / 16), Js.hexDigit (byte.toNat % 16)]

def anchorOf (bytes : RandomBytes) : Text :=
  "e-".toList ++ hexOf bytes.1 ++ hexOf bytes.2.1 ++ hexOf bytes.2.2

/-- What one call of `appendEvidence` is given. -/
structure Capture where
  content : Text
  source : Surface
  verbatim : Bool
  now : Moment
  bytes : RandomBytes
  metadata : EvidenceMetadata := {}
deriving DecidableEq

def Capture.anchor (c : Capture) : Text := anchorOf c.bytes

def Capture.logPath (c : Capture) : Text := logPathOf (todayString c.now)

def Capture.heading (c : Capture) : Text :=
  "## ".toList ++ timeOf c.now ++ " ".toList ++ entryTitle c.content ++ "  ^".toList ++ c.anchor

def Capture.metadataLines (c : Capture) : List Text :=
  ["- source: ".toList ++ c.source.text,
    "- verbatim: ".toList ++ if c.verbatim then "yes".toList else "no".toList] ++
  (c.metadata.contentType.map fun v => "- content-type: ".toList ++ singleLine v.name).toList ++
  ((truthy c.metadata.capturedAt).map fun v => "- captured-at: ".toList ++ singleLine v).toList ++
  ((truthy c.metadata.sourceId).map fun v => "- source-id: ".toList ++ singleLine v).toList

def quoted (content : Text) : List Text := (lines (trimEnd content)).map fun line => "> ".toList ++ line

/-- The markdown appended. -/
def Capture.entry (c : Capture) : Text :=
  join (c.heading :: c.metadataLines ++ [[], join (quoted c.content), []])

structure EvidenceEntry where
  logPath : Text
  anchor : Text
  line : Nat
  entry : Text
  date : Text
deriving DecidableEq

def appendEvidence (c : Capture) (vault : Vault) : EvidenceEntry × Vault :=
  let date := todayString c.now
  let existing := (vault c.logPath).getD ("# ".toList ++ date ++ "\n".toList)
  let separator := if endsWithNewline existing then "\n".toList else "\n\n".toList
  let pre := existing ++ separator
  ({ logPath := c.logPath, anchor := c.anchor, line := (lines pre).length, entry := c.entry, date := date },
    vault.write c.logPath (pre ++ c.entry))

/-- How callers name the entry: `${evidence.logPath}#^${evidence.anchor}`. -/
def EvidenceEntry.evidenceRef (e : EvidenceEntry) : Text := e.logPath ++ "#^".toList ++ e.anchor

/-! ## Reading captures -/

structure Heading where
  anchor : Text
  title : Text
  time : Text
deriving DecidableEq

def hex : Text := "0123456789abcdef".toList

def validAnchor (value : Text) : Bool :=
  utf16Length value == 8 && startsWith value "e-".toList && (value.drop 2).all fun c => c.toLower ∈ hex

def entryHeading (line : Text) : Option Heading :=
  if startsWith line "## ".toList then
    match splitLast ' ' '^' line with
    | none => none
    | some (before, behind) =>
      let anchor := trim behind
      if validAnchor anchor then
        let heading := trim (before.drop 3)
        if ' ' ∈ heading then
          some {
            anchor := anchor
            time := heading.takeWhile (· ≠ ' ')
            title := trim ((heading.dropWhile (· ≠ ' ')).drop 1) }
        else none
      else none
  else none

/-- The day of a log file's path. -/
def logDate (path : Text) : Option Text :=
  if startsWith path "Log/".toList && ".md".toList.isSuffixOf path then
    let date := (path.drop 4).rdrop 3
    if utf16Length date = 10 then some date else none
  else none

structure MemoryEntry where
  evidenceRef : Text
  path : Text
  anchor : Text
  title : Text
  content : Text
  source : Surface
  verbatim : Bool
  contentType : Option MemoryContentType
  capturedAt : Text
  sourceId : Option Text
deriving DecidableEq

/-- What the lines under a heading are read into. -/
structure Fields where
  source : Surface := .mcp
  verbatim : Bool := false
  contentType : Option MemoryContentType := none
  capturedAt : Text
  sourceId : Option Text := none
  content : List Text := []
deriving DecidableEq

/-- `line.slice(label.length).trim()`. -/
def valueOf (line label : Text) : Text := trim (line.drop label.length)

def Fields.read (f : Fields) (line : Text) : Fields :=
  if startsWith line "- source: ".toList then
    let value := valueOf line "- source: ".toList
    { f with source := (surfaces.find? (·.text = value)).getD f.source }
  else if startsWith line "- verbatim: ".toList then
    { f with verbatim := valueOf line "- verbatim: ".toList = "yes".toList }
  else if startsWith line "- content-type: ".toList then
    let value := valueOf line "- content-type: ".toList
    { f with contentType := (contentTypes.find? (·.name = value)).or f.contentType }
  else if startsWith line "- captured-at: ".toList then
    { f with capturedAt := (truthy (some (valueOf line "- captured-at: ".toList))).getD f.capturedAt }
  else if startsWith line "- source-id: ".toList then
    { f with sourceId := truthy (some (valueOf line "- source-id: ".toList)) }
  else if startsWith line "> ".toList then
    { f with content := f.content ++ [line.drop 2] }
  else if line = ">".toList then
    { f with content := f.content ++ [[]] }
  else f

def memoryEntry (path date : Text) (heading : Heading) (body : List Text) : MemoryEntry :=
  let f := body.foldl Fields.read { capturedAt := date ++ "T".toList ++ heading.time ++ ":00".toList }
  { evidenceRef := path ++ "#^".toList ++ heading.anchor
    path := path
    anchor := heading.anchor
    title := heading.title
    content := trimEnd (join f.content)
    source := f.source
    verbatim := f.verbatim
    contentType := f.contentType
    capturedAt := f.capturedAt
    sourceId := f.sourceId }

/-- Each heading with the lines under it, up to the next one. -/
def sections : List Text → List (Heading × List Text)
  | [] => []
  | line :: rest =>
    match entryHeading line with
    | some heading => (heading, rest.takeWhile fun l => (entryHeading l).isNone) :: sections rest
    | none => sections rest

def parseEvidenceFile (path text : Text) : List MemoryEntry :=
  match logDate path with
  | none => []
  | some date => (sections (lines text)).map fun s => memoryEntry path date s.1 s.2

inductive EvidenceError
  | invalidRef (evidenceRef : Text)
  | notFound (evidenceRef : Text)
  | noFile (path : Text)
deriving DecidableEq

def evidenceEntryFromText (evidenceRef text : Text) : Except EvidenceError MemoryEntry :=
  match splitLast '#' '^' evidenceRef with
  | none => throw (.invalidRef evidenceRef)
  | some (path, anchor) =>
    if (logDate path).isSome ∧ validAnchor anchor then
      match (parseEvidenceFile path text).find? (·.anchor = anchor) with
      | some entry => return entry
      | none => throw (.notFound evidenceRef)
    else throw (.invalidRef evidenceRef)

def getEvidenceEntry (vault : Vault) (evidenceRef : Text) : Except EvidenceError MemoryEntry :=
  match splitLast '#' '^' evidenceRef with
  | none => throw (.invalidRef evidenceRef)
  | some (path, anchor) =>
    if (logDate path).isSome ∧ validAnchor anchor then
      match vault path with
      | some text => evidenceEntryFromText evidenceRef text
      | none => throw (.noFile path)
    else throw (.invalidRef evidenceRef)

/-! ## Filed lines -/

/-- `text.replace(/\s+/g, " ").trim()`, cut to `max` code units. -/
def oneLine (text : Text) (max : Nat) : Text :=
  let flat := [' '].intercalate (words text)
  if max < utf16Length flat then trimEnd (takeUnits (max - 1) flat) ++ "…".toList else flat

def parentRef (path : Text) : Text :=
  "[[".toList ++ (if ".md".toList.isSuffixOf path then path.rdrop 3 else path) ++ "]]".toList

structure PlacedPage where
  path : Text
  lineage : Option Text := none
  provisional : Bool := false
  rollup : Bool := false

inductive Placement
  | page (page : PlacedPage)
  | logOnly (reason : Text)

/-- The text after `- filed: ` for one destination. -/
def filedTarget : Placement → Text
  | .logOnly reason => "log only (".toList ++ oneLine reason 160 ++ ")".toList
  | .page page =>
    let extras := (if page.rollup then ["ops rollup".toList] else []) ++
      if page.provisional then ["provisional".toList] else []
    parentRef page.path ++
      (match truthy page.lineage with
        | some lineage => " (".toList ++ lineage ++ ")".toList
        | none => []) ++
      if extras = [] then [] else " · ".toList ++ (" · ".toList).intercalate extras

structure EvidenceRef where
  logPath : Text
  date : Text
  anchor : Text
deriving DecidableEq

/-- `\d{4}-\d{2}-\d{2}`. -/
def isDay (date : Text) : Bool :=
  date.length == 10 && (List.range 10).all fun i =>
    if i = 4 ∨ i = 7 then date[i]? == some '-' else date[i]?.any Char.isDigit

/-- `/^(Log\/(\d{4}-\d{2}-\d{2})\.md)#\^(e-[0-9a-f]+)$/`. -/
def splitEvidenceRef (evidenceRef : Text) : Except EvidenceError EvidenceRef :=
  let date := (evidenceRef.drop 4).take 10
  let anchor := evidenceRef.drop 19
  if startsWith evidenceRef "Log/".toList ∧ isDay date ∧ (evidenceRef.drop 14).take 5 = ".md#^".toList ∧
      startsWith anchor "e-".toList ∧ anchor.drop 2 ≠ [] ∧ (anchor.drop 2).all fun c => c ∈ hex then
    return { logPath := logPathOf date, date := date, anchor := anchor }
  else throw (.invalidRef evidenceRef)

/-- `/^\[\[[^\]]+\]\]/` of the target, `log only`, or the target itself. -/
def filedKey (target : Text) : Text :=
  let name := (target.drop 2).takeWhile (· ≠ ']')
  if startsWith target "[[".toList ∧ name ≠ [] ∧ startsWith ((target.drop 2).dropWhile (· ≠ ']')) "]]".toList then
    "[[".toList ++ name ++ "]]".toList
  else if startsWith target "log only".toList then "log only".toList
  else target

def parseFiledLinesFrom (anchor : Text) : Bool → List Text → List Text
  | _, [] => []
  | inEntry, line :: rest =>
    let inEntry := match entryHeading line with
      | some heading => heading.anchor == anchor
      | none => inEntry
    let own := if inEntry && startsWith line "- filed: ".toList then [line.drop 9] else []
    let addressed :=
      if startsWith line ("- filed ".toList ++ anchor ++ ": ".toList) then [line.drop (anchor.length + 10)] else []
    own ++ addressed ++ parseFiledLinesFrom anchor inEntry rest

def parseFiledLines (logText anchor : Text) : List Text := parseFiledLinesFrom anchor false (lines logText)

/-- The targets of a call that get a line: one for each destination page, and a
log-only line only while the entry has none. -/
def freshTargets (recorded : List Text) : List Text → List Text → List Text
  | _, [] => []
  | known, target :: rest =>
    let key := filedKey target
    if key ∈ known ∨ (key = "log only".toList ∧ recorded ≠ []) then freshTargets recorded known rest
    else target :: freshTargets recorded (key :: known) rest

def appendFiledLines (evidenceRef : Text) (targets : List Text) (vault : Vault) :
    Except EvidenceError (List Text × Vault) := do
  let ref ← splitEvidenceRef evidenceRef
  match vault ref.logPath with
  | none => throw (.noFile ref.logPath)
  | some raw =>
    let recorded := parseFiledLines raw ref.anchor
    let fresh := freshTargets recorded (recorded.map filedKey) targets.eraseDups
    if fresh = [] then return ([], vault)
    match (lines raw).dropWhile fun line => (entryHeading line).map (·.anchor) ≠ some ref.anchor with
    | [] => throw (.notFound evidenceRef)
    | _ :: later =>
      let isLast := later.all fun line => (entryHeading line).isNone
      let pre := if isLast then "- filed: ".toList else "- filed ".toList ++ ref.anchor ++ ": ".toList
      let added := fresh.map fun target => pre ++ target
      let base := if endsWithNewline raw then raw else raw ++ "\n".toList
      return (added, vault.write ref.logPath (base ++ join added ++ "\n".toList))

end Zenod.Evidence
