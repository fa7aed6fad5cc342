/-
The memory tree: `Tree.md` with the level-1 roots, the `parent:` of every
page, and the path from a root down to a page (`vault/tree.ts`,
`vault/lineage.ts`, and the link targets of `vault/pages.ts`).

What a scan of the vault yields is a function of its files (`VaultState`).
The YAML library, the lower case of a text and the collation of
`localeCompare` are parameters (`Library`).
-/
import Zenod.Evidence.Log
import Zenod.Vault.Note

namespace Zenod.Vault

open Text
open Evidence (isDay hex)

/-! ## The vault on disk -/

/-- A markdown file; one that cannot be read has no content. -/
structure File where
  content : Option Text
  mtimeMs : Rat
  size : Nat
deriving DecidableEq

/-- The files below the vault's folder. -/
structure VaultState where
  files : List (Text × File)
  nodup : (files.map (·.1)).Nodup

def VaultState.file (v : VaultState) (path : Text) : Option File := (v.files.find? (·.1 = path)).map (·.2)

/-- `readFile(join(vaultPath, path), "utf8")`, none where it throws. -/
def VaultState.read (v : VaultState) (path : Text) : Option Text := (v.file path).bind (·.content)

def VaultState.listMarkdownFiles (v : VaultState) : List Text := sort ((v.files.map (·.1)).filter isListed)

structure Library where
  yaml : Yaml
  toLowerCase : Text → Text
  /-- `a.localeCompare(b) <= 0`. -/
  localeLe : Text → Text → Bool

variable (lib : Library)

/-! ## Tree.md -/

def treePath : Text := "Tree.md".toList

def maxTreeDepth : Nat := 6

inductive MemoryKind | working | longTerm
deriving DecidableEq, Repr

def memoryKinds : List MemoryKind := [.working, .longTerm]

def MemoryKind.text : MemoryKind → Text
  | .working => "working".toList
  | .longTerm => "long-term".toList

def groupHeading : MemoryKind → Text
  | .working => "Working memory".toList
  | .longTerm => "Long-term memory".toList

structure TreeNode where
  name : Text
  id : Option Text
  kind : MemoryKind
  path : Text
  summary : Text
  line : Nat
deriving DecidableEq

structure TreeParseProblem where
  line : Nat
  rule : Text
  message : Text
deriving DecidableEq

structure ParsedTree where
  nodes : List TreeNode := []
  problems : List TreeParseProblem := []

/-- Either quotation mark. -/
def isQuote (c : Char) : Bool := c.toNat == 0x22 || c.toNat == 0x27

/-- `/^\[\[([^\]|#]+)(?:#[^\]|]*)?(?:\|[^\]]*)?\]\]$/`, its first group. -/
def wikiName (clean : Text) : Option Text :=
  if startsWith clean "[[".toList then
    let inner := clean.drop 2
    let stops (c : Char) : Bool := c == ']' || c == '|'
    let name := inner.takeWhile fun c => !stops c && c != '#'
    let rest := inner.dropWhile fun c => !stops c && c != '#'
    let rest := if rest.head? = some '#' then rest.dropWhile (!stops ·) else rest
    let rest := if rest.head? = some '|' then rest.dropWhile (· ≠ ']') else rest
    if name ≠ [] ∧ rest = "]]".toList then some name else none
  else none

/-- The path a reference names, as written. -/
def pagePathFromRef (ref : Text) : Text :=
  let clean := trim ref
  let clean := if clean.head?.any isQuote then clean.tail else clean
  let clean := if clean.getLast?.any isQuote then clean.dropLast else clean
  let clean := match wikiName clean with
    | some name => trim name
    | none => clean
  let clean := clean.map fun c => if c = '\\' then '/' else c
  let clean := if startsWith clean "./".toList then clean.drop 2 else if startsWith clean "/".toList then clean.drop 1 else clean
  if clean = [] then [] else if ".md".toList.isSuffixOf clean then clean else clean ++ ".md".toList

/-- `/^## (.+?)\s*$/`, its first group. -/
def headingTitle (text : Text) : Option Text :=
  if startsWith text "## ".toList then
    let rest := text.drop 3
    let title := if trimEnd rest = [] then rest.take 1 else trimEnd rest
    if title ≠ [] ∧ title.all (!isLineTerminator ·) then some title else none
  else none

/-- `/^\s+[-*+] /`. -/
def isNestedLine (text : Text) : Bool :=
  let rest := text.dropWhile Js.isSpace
  rest.length < text.length &&
    (startsWith rest "- ".toList || startsWith rest "* ".toList || startsWith rest "+ ".toList)

/-- `/^- (.+)$/`, its group. -/
def nodeLine (text : Text) : Option Text :=
  let rest := text.drop 2
  if startsWith text "- ".toList ∧ rest ≠ [] ∧ rest.all (!isLineTerminator ·) then some rest else none

def isAlphanumeric (c : Char) : Bool := c.isAlpha || c.isDigit

/-- `/\s+\^([A-Za-z0-9][A-Za-z0-9-]*)$/`: the id, and what stands before the match. -/
def nodeId (summary : Text) : Option (Text × Text) :=
  let id := summary.rtakeWhile fun c => isAlphanumeric c || c == '-'
  let before := summary.rdrop id.length
  if id.head?.any isAlphanumeric ∧ before.getLast? = some '^' ∧ (before.dropLast).getLast?.any Js.isSpace then
    some (id, trimEnd before.dropLast)
  else none

/-- What one line of `Tree.md` adds to the parse. -/
structure TreeState where
  tree : ParsedTree := {}
  group : Option MemoryKind := none

def TreeState.problem (s : TreeState) (line : Nat) (rule message : Text) : TreeState :=
  { s with tree := { s.tree with problems := s.tree.problems ++ [{ line := line, rule := rule, message := message }] } }

def TreeState.node (s : TreeState) (node : TreeNode) : TreeState :=
  { s with tree := { s.tree with nodes := s.tree.nodes ++ [node] } }

def TreeState.heading (s : TreeState) (line : Nat) (title : Text) : TreeState :=
  let group := memoryKinds.find? fun k => lib.toLowerCase (groupHeading k) = lib.toLowerCase title
  let s := { s with group := group }
  if group = none then
    s.problem line "tree/group".toList
      ("unknown level-0 group \"".toList ++ title ++ "\"; use \"".toList ++ groupHeading .working ++ "\" or \"".toList ++
        groupHeading .longTerm ++ "\"".toList)
  else s

def TreeState.nodeFields (s : TreeState) (line : Nat) (fields : List Text) : TreeState :=
  match fields.map trim with
  | name :: kindRaw :: pageRaw :: rest =>
    let path := pagePathFromRef pageRaw
    let whole := trim ((" | ".toList).intercalate rest)
    let summary := match nodeId whole with
      | some found => trim found.2
      | none => whole
    match memoryKinds.find? (·.text = kindRaw) with
    | none =>
      s.problem line "tree/node-kind".toList ("kind \"".toList ++ kindRaw ++ "\" must be working or long-term".toList)
    | some kind =>
      if name = [] ∨ path = [] ∨ summary = [] then
        s.problem line "tree/node-format".toList "node needs a name, a page and a one-line summary".toList
      else
        let s := match s.group with
          | none =>
            s.problem line "tree/group".toList "node line sits outside a level-0 group heading".toList
          | some group =>
            if group = kind then s
            else s.problem line "tree/node-kind".toList
              ("node \"".toList ++ name ++ "\" is ".toList ++ kind.text ++ " but sits under \"".toList ++
                groupHeading group ++ "\"".toList)
        s.node { name := name, id := (nodeId whole).map (·.1), kind := kind, path := path, summary := summary, line := line }
  | _ => s

def TreeState.read (s : TreeState) (line : Nat) (raw : Text) : TreeState :=
  let text := withoutSuffix ['\r'] raw
  match headingTitle text with
  | some title => s.heading lib line title
  | none =>
    if isNestedLine text then
      s.problem line "tree/level".toList
        "Tree.md holds levels 0 and 1 only; deeper nodes name their parent in page frontmatter".toList
    else
      match nodeLine text with
      | none => s
      | some content =>
        let fields := pieces " | ".toList content
        if fields.length < 4 then
          s.problem line "tree/node-format".toList
            "node line must be \x60- name | working|long-term | [[page]] | summary\x60".toList
        else s.nodeFields line fields

def parseTree (raw : Text) : ParsedTree :=
  let body := (parseNote lib.yaml raw).body
  let offset := if body.length < raw.length then (lines (raw.take (raw.length - body.length))).length - 1 else 0
  ((lines body).zipIdx.foldl (fun s l => s.read lib (l.2 + 1 + offset) l.1) ({} : TreeState)).tree

/-- `readTree`: none when the vault has no tree, an error when it cannot be read. -/
def VaultState.readTree (v : VaultState) : Except Unit (Option ParsedTree) :=
  match v.file treePath with
  | none => return none
  | some f =>
    match f.content with
    | none => throw ()
    | some raw => return some (parseTree lib raw)

/-! ## Pages -/

structure PageTreeFields where
  parent : Option Text := none
  memory : Option MemoryKind := none
  invalidMemory : Option Value := none
  invalidParent : Option Value := none
  provisional : Bool := false
  title : Text

/-- YAML reads an unquoted `[[X]]` as a nested list. -/
def flatParent : Value → Value
  | .list [.list [.str x]] => .str ("[[".toList ++ x ++ "]]".toList)
  | v => v

/-- A value under a key that is not null. -/
def present (f : Frontmatter) (key : Text) : Option Value :=
  match f.get key with
  | some .null => none
  | v => v

def isTrue : Option Value → Bool
  | some (.bool b) => b
  | _ => false

def pageTreeFields (frontmatter : Option Frontmatter) (title : Text) : PageTreeFields :=
  match frontmatter with
  | none => { title := title }
  | some f =>
    let parent := (present f "parent".toList).bind fun v => ((flatParent v).text?.map trim).filter (· ≠ [])
    let memory := (present f "memory".toList).bind fun v => v.text?.bind fun t => memoryKinds.find? (·.text = t)
    { parent := parent
      memory := memory
      invalidMemory := if memory = none then present f "memory".toList else none
      invalidParent := if parent = none then present f "parent".toList else none
      provisional := isTrue (f.get "provisional".toList)
      title := title }

def isTreeParentRef (ref : Text) : Bool := lib.toLowerCase (pagePathFromRef ref) == lib.toLowerCase treePath

def isTreePage (path : Text) : Bool := tierOf path = .meaning && !isIndexFile path && ".md".toList.isSuffixOf path

/-- Lower-cased path without `.md`, and basename, of every file; the first file keeps a key. -/
def linkTargets (files : List Text) : List (Text × Text) :=
  files.flatMap fun file =>
    [(lib.toLowerCase (withoutSuffix ".md".toList file), file), (lib.toLowerCase (basenameOf file), file)]

/-- `map.get(key)`, where the first entry of a key is the one that was set. -/
def lookup {α : Type} (entries : List (Text × α)) (key : Text) : Option α := (entries.find? (·.1 = key)).map (·.2)

/-! ## Lineage -/

structure LineageStep where
  name : Text
  path : Text
deriving DecidableEq

inductive LineageFailure | notATreePage | noParent | unresolvedParent | cycle | tooDeep | noRoot
deriving DecidableEq, Repr

inductive LineageResult
  | ok (group : MemoryKind) (root : TreeNode) (steps : List LineageStep)
  | fail (reason : LineageFailure) (place : Text) (steps : List LineageStep)
deriving DecidableEq

structure TreeIndex where
  tree : Option ParsedTree
  fields : List (Text × PageTreeFields)
  linkTargets : List (Text × Text)

variable (index : TreeIndex)

/-- The roots by lower-cased page path; the first node of a page keeps it. -/
def TreeIndex.rootsByPath : List (Text × TreeNode) :=
  ((index.tree.map (·.nodes)).getD []).map fun node =>
    let resolved := (lookup index.linkTargets (lib.toLowerCase (withoutSuffix ".md".toList node.path))).getD node.path
    (lib.toLowerCase resolved, node)

def TreeIndex.resolveRef (ref : Text) : Option Text :=
  let path := pagePathFromRef ref
  if path = [] then none
  else (lookup index.linkTargets (lib.toLowerCase (withoutSuffix ".md".toList path))).or
    (lookup index.linkTargets (lib.toLowerCase (basenameOf path)))

def TreeIndex.titleOf (path : Text) : Text := ((lookup index.fields path).map (·.title)).getD (basenameOf path)

/-- The walk up from a page; `steps` is what it has seen, the last page first. Every page it goes on
to is one of the fields not seen yet, so that their number bounds it. -/
def TreeIndex.climb (start : Text) : Nat → Text → List LineageStep → LineageResult
  | 0, current, steps => .fail .cycle current steps
  | fuel + 1, current, steps =>
    if (steps.map (·.path)).contains current then .fail .cycle current steps
    else
      let root := lookup (index.rootsByPath lib) (lib.toLowerCase current)
      let steps := { name := (root.map (·.name)).getD (index.titleOf current), path := current } :: steps
      match root with
      | some root =>
        if maxTreeDepth < steps.length then .fail .tooDeep start steps else .ok root.kind root steps
      | none =>
        match (lookup index.fields current).bind (·.parent.filter (· ≠ [])) with
        | none => .fail .noParent current steps
        | some parent =>
          if isTreeParentRef lib parent then .fail .noRoot current steps
          else
            match (index.resolveRef lib parent).filter (· ≠ []) with
            | none => .fail .unresolvedParent current steps
            | some next =>
              if (lookup index.fields next).isNone then .fail .unresolvedParent current steps
              else climb start fuel next steps

def TreeIndex.lineage (start : Text) : LineageResult :=
  if (lookup index.fields start).isNone then .fail .notATreePage start []
  else index.climb lib start (index.fields.length + 1) start []

/-- The fields of every tree page; none when one of them cannot be read. -/
def VaultState.treeFields (v : VaultState) : List Text → Option (List (Text × PageTreeFields))
  | [] => some []
  | file :: files => do
    let rest ← treeFields v files
    if isTreePage file then
      let raw ← v.read file
      let frontmatter := (parseNote lib.yaml raw).frontmatter
      let title := ((frontmatter.bind (·.text "title".toList)).map trim).filter (· ≠ [])
      return (file, pageTreeFields frontmatter (title.getD (basenameOf file))) :: rest
    else return rest

/-- A log file of the vault: `/^Log\/(\d{4}-\d{2}-\d{2})\.md$/`, its date. -/
def logFileDate (path : Text) : Option Text :=
  let date := (path.drop 4).take 10
  if startsWith path "Log/".toList ∧ isDay date ∧ path.drop 14 = ".md".toList then some date else none

/-- `buildTreeIndex`, none where it throws: an unreadable log, page or tree. -/
def VaultState.buildTreeIndex (v : VaultState) : Option TreeIndex :=
  let files := v.listMarkdownFiles
  if files.any fun file => (logFileDate file).isSome && (v.read file).isNone then none
  else
    match v.readTree lib, v.treeFields lib files with
    | .ok tree, some fields => some { tree := tree, fields := fields, linkTargets := linkTargets lib files }
    | _, _ => none

/-! ## Retrieval lineage -/

/-- The title and page of a node on the way down; a level-0 group has no page. -/
structure LineageNode where
  path : Option Text
  title : Text
  memory : Option MemoryKind
deriving DecidableEq

structure MemoryLineage where
  placed : Bool
  lineage : List LineageNode := []
  evidence : List Text := []
deriving DecidableEq

/-- `CITATION_RE` at the front of a text: date, anchor, and the length of the match. -/
def citationAt (t : Text) : Option (Text × Text × Nat) :=
  let date := (t.drop 2).take 10
  let anchor := (t.drop 14).take 8
  if startsWith t "[[".toList ∧ isDay date ∧ (t.drop 12).take 2 = "#^".toList ∧ startsWith anchor "e-".toList ∧
      anchor.length = 8 ∧ (anchor.drop 2).all fun c => c ∈ hex then
    let rest := t.drop 22
    let shown := if rest.head? = some '|' then (rest.takeWhile (· ≠ ']')).length else 0
    if startsWith (rest.drop shown) "]]".toList then some (date, anchor, 24 + shown) else none
  else none

/-- The evidence references of `body.matchAll(CITATION_RE)`. -/
def citationsFrom : Nat → Text → List Text
  | _, [] => []
  | skip + 1, _ :: t => citationsFrom skip t
  | 0, c :: t =>
    match citationAt (c :: t) with
    | some (date, anchor, length) =>
      ("Log/".toList ++ date ++ ".md#^".toList ++ anchor) :: citationsFrom (length - 1) t
    | none => citationsFrom 0 t

def citations (body : Text) : List Text := citationsFrom 0 body

def maxEvidence : Nat := 5

def evidenceRefs (body : Text) : List Text := (citations body).eraseDups.take maxEvidence

def TreeIndex.exact (path : Text) : Text :=
  if (lookup index.fields path).isSome then path else (index.resolveRef lib path).getD path

variable (v : VaultState)

def TreeIndex.lineageOf (path : Text) : MemoryLineage :=
  let page := index.exact lib path
  let cited := if startsWith page "Log/".toList then [] else ((v.read page).map evidenceRefs).getD []
  match index.lineage lib page with
  | .fail _ _ _ => { placed := false, evidence := cited }
  | .ok group _ steps =>
    { placed := true
      lineage := { path := none, title := groupHeading group, memory := some group } ::
        steps.map fun step => { path := some step.path, title := step.name, memory := some group }
      evidence := cited }

def TreeIndex.depth (path : Text) : Nat :=
  match index.lineage lib path with
  | .ok _ _ steps => steps.length
  | .fail _ _ _ => 0

def TreeIndex.isPlaced (path : Text) : Bool :=
  match index.lineage lib path with
  | .ok _ _ _ => true
  | .fail _ _ _ => false

/-- The placed pages that cite an evidence reference, deepest first. -/
def TreeIndex.placedCitersOf (evidenceRef : Text) : List Text :=
  let citers := (index.fields.map (·.1)).filter fun path =>
    index.isPlaced lib path && (citations ((v.read path).getD [])).contains evidenceRef
  citers.insertionSort fun a b =>
    index.depth lib b < index.depth lib a ∨ (index.depth lib a = index.depth lib b ∧ lib.localeLe a b = true)

def formatMemoryLineage (lineage : MemoryLineage) : Text :=
  if lineage.placed then
    let path := (" › ".toList).intercalate (lineage.lineage.map (·.title))
    match lineage.evidence with
    | [] => path
    | first :: _ => path ++ " ← ".toList ++ first
  else []

end Zenod.Vault
