/-
The roots as `Tree.md` writes them and reads them back, and a page's path as
its children's `parent:` names it (`formatTreeNode`, `renderDiscoveredTree`
of `engine/treeDiscover.ts`, `parentRef` of `engine/treePlacement.ts`).

A node line has four fields between marks, and a page is named in wikilink
brackets: which texts stand for themselves there is `Legible` and
`LegiblePath`, and `tree_files_faithful` is exact about both.
-/
import Zenod.Lib.Pieces
import Zenod.Vault.Tree

namespace Zenod.Vault

open Text

/-! ## Writing Tree.md -/

/-- `t.replace(/\s*\n\s*/g, " ")`. -/
def oneLine (t : Text) : Text :=
  (t.splitBy fun a b => Js.isSpace a == Js.isSpace b).flatMap fun run => if '\n' ∈ run then [' '] else run

/-- The texts between bars, without the space around a bar. -/
def trimAtBars : Bool → List Text → List Text
  | _, [] => []
  | behind, [p] => [if behind then p.dropWhile Js.isSpace else p]
  | behind, p :: ps => trimEnd (if behind then p.dropWhile Js.isSpace else p) :: trimAtBars true ps

/-- `t.replace(/\s*\|\s*/g, " / ")`: the summary of a discovered root. -/
def withoutBars (t : Text) : Text := (" / ".toList).intercalate (trimAtBars false (t.splitOn '|'))

/-- `[A-Za-z0-9][A-Za-z0-9-]*`. -/
def isRootId (id : Text) : Bool := id.head?.any isAlphanumeric && id.all fun c => isAlphanumeric c || c == '-'

/-- What `Tree.md` shows of a discovered root. The page is one of the vault's tree pages, the summary is without bars,
and an id is one that was read or `newRootId` made. -/
structure DiscoveredRoot where
  name : Text
  kind : MemoryKind
  path : Text
  summary : Text
  id : Option Text
  isPage : isTreePage path = true
  noBar : '|' ∉ summary
  idOk : ∀ i ∈ id, isRootId i = true

def pageName (path : Text) : Text := withoutSuffix ".md".toList path

def parentRef (path : Text) : Text := "[[".toList ++ pageName path ++ "]]".toList

def formatTreeNode (node : DiscoveredRoot) : Text :=
  "- ".toList ++ node.name ++ " | ".toList ++ node.kind.text ++ " | ".toList ++ parentRef node.path ++ " | ".toList ++
    oneLine node.summary ++ (node.id.map (" ^".toList ++ ·)).getD []

def discoveryGenerator : Text := "zenod-discover".toList

def treeFrontmatter (date : Text) : List Text :=
  ["title: Tree".toList, "updated: ".toList ++ date, "generated: ".toList ++ discoveryGenerator]

def treeProse : List Text := [
  [],
  "# Memory tree".toList,
  [],
  "Levels 0 and 1 of this vault's memory. One line per node: \x60name | working|long-term | [[page]] | one-line summary\x60.".toList,
  "Deeper pages name their parent in frontmatter (\x60parent:\x60); the Log is the evidence underneath, not a branch.".toList,
  [],
  ("Zenod writes this file. It finds the topics in your pages by their content, puts the ones you have been capturing about " ++
    "lately in working memory, and groups the rest into long-term areas. Agent reports never count as your activity. The " ++
    "weekly sweep re-derives it.").toList]

def groupLines (roots : List DiscoveredRoot) (kind : MemoryKind) : List Text :=
  [[], "## ".toList ++ groupHeading kind, []] ++ (roots.filter (·.kind = kind)).map formatTreeNode

def renderDiscoveredTree (roots : List DiscoveredRoot) (date : Text) : Text :=
  join (["---".toList] ++ treeFrontmatter date ++ ["---".toList] ++ treeProse ++ memoryKinds.flatMap (groupLines roots)) ++ ['\n']

/-! ## What is to come back -/

/-- What a node of `Tree.md` says. -/
structure NodeFields where
  name : Text
  kind : MemoryKind
  path : Text
  summary : Text
  id : Option Text
deriving DecidableEq

def TreeNode.fields (node : TreeNode) : NodeFields :=
  { name := node.name, kind := node.kind, path := node.path, summary := node.summary, id := node.id }

def DiscoveredRoot.fields (root : DiscoveredRoot) : NodeFields :=
  { name := root.name, kind := root.kind, path := root.path, summary := root.summary, id := root.id }

variable (lib : Library)

/-- **Tree.md reads back**: no problem, and within each group the roots as they were. -/
def TreeRestored (roots : List DiscoveredRoot) (date : Text) : Prop :=
  (parseTree lib (renderDiscoveredTree roots date)).problems = [] ∧
    (parseTree lib (renderDiscoveredTree roots date)).nodes.map TreeNode.fields =
      memoryKinds.flatMap fun kind => (roots.filter (·.kind = kind)).map DiscoveredRoot.fields

def Unbroken (t : Text) : Prop := ∀ c ∈ t, isLineTerminator c = false

/-- A text on one line with no space at its ends. -/
structure PlainField (t : Text) : Prop where
  nonempty : t ≠ []
  tight : trim t = t
  unbroken : Unbroken t

/-- A path that its wikilink reads as: nothing in it is an end, an alias, an anchor or another separator. -/
structure LegiblePath (path : Text) : Prop where
  marks : ∀ c ∈ pageName path, c ∉ "]|#\\".toList
  tight : trim (pageName path) = pageName path
  suffix : ¬".md".toList <:+ pageName path

/-- A root whose line reads as the root: its name is not cut at a mark, its page is legible, and what its summary ends in
is not taken for an id. -/
structure Legible (root : DiscoveredRoot) : Prop where
  name : PlainField root.name
  nameMark : ¬" | ".toList <:+: root.name ∧ ¬" |".toList <:+ root.name
  path : LegiblePath root.path
  unbroken : Unbroken root.path
  summary : PlainField root.summary
  summaryId : root.id = none → nodeId root.summary = none

/-- What stands in a wikilink up to an alias or an anchor. -/
def linkName (t : Text) : Text := t.takeWhile fun c => c ≠ '|' ∧ c ≠ '#'

def slashed (t : Text) : Text := t.map fun c => if c = '\\' then '/' else c

/-- The path that a wikilink to a page is read as. -/
def readName (path : Text) : Text := pageName (slashed (trim (linkName (pageName path))))

def lastSegment (t : Text) : Text := (segments t).getLastD []

/-- The first file of a vault whose lower-cased path, or name, is that of another. -/
def firstAlike (part : Text → Text) (files : List Text) (t : Text) : Option Text :=
  files.find? fun file => lib.toLowerCase (part file) = lib.toLowerCase t

/-- **A path that its parent reference finds**: legible, and the first of its spelling; or, misread as a path no file
has, the first page of the name at its end. -/
def Findable (files : List Text) (path : Text) : Prop :=
  (LegiblePath path ∧ firstAlike lib pageName files (pageName path) = some path) ∨
  (¬LegiblePath path ∧ ']' ∉ pageName path ∧ firstAlike lib pageName files (readName path) = none ∧
    firstAlike lib basenameOf files (lastSegment (readName path)) = some path)

def isMark (c : Char) : Bool := "/.]|#-".toList.contains c || c == Char.ofNat 0x5c || Js.isSpace c

/-- What is known of `toLowerCase`: it leaves white space and punctuation, and makes none. -/
def Library.KeepsMarks : Prop := ∀ t, (lib.toLowerCase t).filter isMark = t.filter isMark

/-! ## A summary without bars -/

theorem mem_trimAtBars {behind : Bool} {ps : List Text} {p : Text} (h : p ∈ trimAtBars behind ps) :
    ∃ q ∈ ps, ∀ c ∈ p, c ∈ q := by
  have hstart : ∀ (behind : Bool) (q : Text), ∀ c ∈ (if behind then q.dropWhile Js.isSpace else q), c ∈ q := by
    intro behind q c hc
    cases behind with
    | false => exact hc
    | true => exact (List.dropWhile_suffix _).subset hc
  induction behind, ps using trimAtBars.induct with
  | case1 => cases h
  | case2 behind q =>
    rw [trimAtBars, List.mem_singleton] at h
    exact ⟨q, List.mem_cons_self, fun c hc => hstart behind q c (h ▸ hc)⟩
  | case3 behind q ps hne ih =>
    rw [trimAtBars] at h
    · rcases List.mem_cons.1 h with rfl | h
      · exact ⟨q, List.mem_cons_self, fun c hc => hstart behind q c ((List.rdropWhile_prefix _ _).subset hc)⟩
      · obtain ⟨r, hr, hsub⟩ := ih h
        exact ⟨r, List.mem_cons_of_mem _ hr, hsub⟩
    · exact hne

/-- **No bar is left in a summary.** -/
theorem bar_not_mem_withoutBars (t : Text) : '|' ∉ withoutBars t := by
  intro h
  rcases mem_intercalate h with h | ⟨p, hp, h⟩
  · exact absurd h (by decide)
  · obtain ⟨q, hq, hsub⟩ := mem_trimAtBars hp
    exact not_mem_of_mem_splitOn hq (hsub _ h)

/-! ## The path of a tree page -/

/-- A letter, or the mark the names of an object start with. -/
def isTopChar (c : Char) : Bool := c.isAlpha || c == '_'

theorem isTopChar_of_tier {path : Text} (h : tierOf path = .meaning) :
    (segments path).headD [] ≠ [] ∧ ∀ c ∈ (segments path).headD [], isTopChar c = true := by
  have hnames : ∀ top ∈ meaningFolders.map (·.1) ++ objectNames, top ≠ [] ∧ (top.all isTopChar) = true := by decide
  have htop : (segments path).headD [] ∈ meaningFolders.map (·.1) ++ objectNames := by
    simp only [tierOf] at h
    split at h
    next => cases h
    next =>
      split at h
      next hin =>
        rw [List.mem_append]
        simpa using hin
      next => split at h <;> cases h
  exact ⟨(hnames _ htop).1, List.all_eq_true.1 (hnames _ htop).2⟩

/-- A tree page lies in a folder of plain letters. -/
theorem exists_top {path : Text} (h : isTreePage path = true) :
    ∃ top rest, top ≠ [] ∧ (∀ c ∈ top, isTopChar c = true) ∧ path = top ++ '/' :: rest ++ ".md".toList := by
  simp only [isTreePage, Bool.and_eq_true, decide_eq_true_eq] at h
  obtain ⟨⟨htier, -⟩, hmd⟩ := h
  obtain ⟨p, rfl⟩ : ".md".toList <:+ path := List.isSuffixOf_iff_suffix.1 hmd
  obtain ⟨hne, htop⟩ := isTopChar_of_tier htier
  by_cases hslash : '/' ∈ p
  · obtain ⟨top, rest, rfl, hfirst⟩ := List.eq_append_cons_of_mem hslash
    have hhead : (segments (top ++ '/' :: rest ++ ".md".toList)).headD [] = top := by
      rw [segments, List.append_assoc, List.cons_append, List.splitOn_append_cons_self, List.splitOn_eq_singleton hfirst]
      rfl
    rw [hhead] at hne htop
    exact ⟨top, rest, hne, htop, rfl⟩
  · have hnone : '/' ∉ p ++ ".md".toList := fun hin => (List.mem_append.1 hin).elim hslash (by decide)
    rw [segments, List.splitOn_eq_singleton hnone] at htop
    exact absurd (htop '.' (List.mem_append_right _ (by decide))) (by decide)

theorem pageName_append (t : Text) : pageName (t ++ ".md".toList) = t := by
  have hmd : ".md".toList.isSuffixOf (t ++ ".md".toList) = true := List.isSuffixOf_iff_suffix.2 (List.suffix_append _ _)
  rw [pageName, withoutSuffix, if_pos hmd, List.rdrop_append_length]

theorem pageName_of_not_suffix {t : Text} (h : ¬".md".toList <:+ t) : pageName t = t := by
  rw [pageName, withoutSuffix, if_neg fun hmd => h (List.isSuffixOf_iff_suffix.1 hmd)]

theorem pageName_start (t : Text) : pageName t <+: t := by
  rw [pageName, withoutSuffix]
  split
  next => exact List.take_prefix _ _
  next => exact List.prefix_refl t

theorem trim_sublist (t : Text) : (trim t).Sublist t := by
  rw [Text.trim_eq]
  exact (List.rdropWhile_prefix _ _).sublist.trans (List.dropWhile_suffix _).sublist

/-! ## A wikilink read -/

theorem takeWhile_brackets {t : Text} (h : ']' ∉ t) :
    (t ++ "]]".toList).takeWhile (fun c => !(c == ']' || c == '|') && c != '#') = linkName t := by
  induction t with
  | nil => decide
  | cons c t ih =>
    have hc : c ≠ ']' := fun heq => h (heq ▸ List.mem_cons_self)
    have hrest := ih fun ht => h (List.mem_cons_of_mem _ ht)
    rw [linkName] at hrest ⊢
    simp only [List.cons_append, List.takeWhile_cons, hrest]
    by_cases hbar : c = '|' <;> by_cases hanchor : c = '#' <;> simp [hc, hbar, hanchor]

/-- A text read up to a rest, with no bracket on the way. -/
def ReadTo (t rest : Text) : Prop := ∃ seen, t = seen ++ rest ∧ ']' ∉ seen

theorem ReadTo.dropWhile {t rest : Text} (h : ReadTo t rest) {p : Char → Bool} (hp : p ']' = false) :
    ReadTo t (rest.dropWhile p) := by
  obtain ⟨seen, rfl, hseen⟩ := h
  refine ⟨seen ++ rest.takeWhile p, ?_, ?_⟩
  · rw [List.append_assoc, List.takeWhile_append_dropWhile]
  · intro hin
    rcases List.mem_append.1 hin with hin | hin
    · exact hseen hin
    · rw [List.mem_takeWhile_imp hin] at hp
      cases hp

theorem ReadTo.mem {t rest : Text} (h : ReadTo t rest) (ht : ']' ∈ t) : ']' ∈ rest := by
  obtain ⟨seen, rfl, hseen⟩ := h
  exact (List.mem_append.1 ht).resolve_left hseen

theorem head_dropWhile {p : Char → Bool} {t : Text} (ht : ']' ∈ t) (hp : p ']' = false) :
    ∃ c rest, t.dropWhile p = c :: rest ∧ p c = false := by
  have hmem : ']' ∈ t.dropWhile p := ReadTo.mem (ReadTo.dropWhile ⟨[], rfl, List.not_mem_nil⟩ hp) ht
  cases hdrop : t.dropWhile p with
  | nil =>
    rw [hdrop] at hmem
    cases hmem
  | cons c rest =>
    refine ⟨c, rest, rfl, ?_⟩
    have hhead := List.head?_dropWhile_not p t
    rw [hdrop] at hhead
    simpa using hhead

/-- What `wikiName` asks of the text behind the name. -/
def linkRest (t : Text) : Text :=
  let stops (c : Char) : Bool := c == ']' || c == '|'
  let rest := t.dropWhile fun c => !stops c && c != '#'
  let rest := if rest.head? = some '#' then rest.dropWhile (!stops ·) else rest
  if rest.head? = some '|' then rest.dropWhile (· ≠ ']') else rest

theorem linkRest_spec {t : Text} (ht : ']' ∈ t) : ReadTo t (linkRest t) ∧ (linkRest t).head? = some ']' := by
  -- Behind the name stands an end, an alias or an anchor.
  obtain ⟨c, r, hfirst, hc⟩ := @head_dropWhile (fun c => !(c == ']' || c == '|') && c != '#') t ht rfl
  have hread : ReadTo t (c :: r) := by
    rw [← hfirst]
    exact ReadTo.dropWhile ⟨[], rfl, List.not_mem_nil⟩ rfl
  -- Behind the anchor, an end or an alias.
  have hsecond : ∃ d s, (if (c :: r).head? = some '#' then (c :: r).dropWhile (fun c => !(c == ']' || c == '|')) else c :: r) = d :: s ∧
      (d = ']' ∨ d = '|') ∧ ReadTo t (d :: s) := by
    by_cases hanchor : c = '#'
    · obtain ⟨d, s, hs, hd⟩ := @head_dropWhile (fun c => !(c == ']' || c == '|')) (c :: r) (hread.mem ht) rfl
      refine ⟨d, s, ?_, by simpa [or_iff_not_imp_left] using hd, ?_⟩
      · rw [List.head?_cons, hanchor, if_pos rfl, ← hanchor, hs]
      · rw [← hs]
        exact hread.dropWhile rfl
    · refine ⟨c, r, ?_, ?_, hread⟩
      · rw [List.head?_cons, if_neg fun h => hanchor (Option.some.inj h)]
      · simpa [hanchor, or_iff_not_imp_left] using hc
  obtain ⟨d, s, hs, hd, hread⟩ := hsecond
  have hrest : linkRest t = if d = '|' then (d :: s).dropWhile (· ≠ ']') else d :: s := by
    simp only [linkRest, hfirst]
    rw [hs]
    simp only [List.head?_cons, Option.some.injEq]
  rw [hrest]
  split
  next =>
    obtain ⟨e, u, hu, he⟩ := @head_dropWhile (· ≠ ']') (d :: s) (hread.mem ht) (by decide)
    refine ⟨hread.dropWhile (by decide), ?_⟩
    rw [hu, List.head?_cons]
    simpa using he
  next hbar =>
    refine ⟨hread, ?_⟩
    rw [List.head?_cons, hd.resolve_right hbar]

/-- The rest is the end of the brackets when nothing closed them before. -/
theorem linkRest_brackets (t : Text) : linkRest (t ++ "]]".toList) = "]]".toList ↔ ']' ∉ t := by
  obtain ⟨⟨seen, heq, hseen⟩, hhead⟩ := @linkRest_spec (t ++ "]]".toList) (List.mem_append_right _ (by decide))
  constructor
  · intro hrest
    rw [hrest] at heq
    rw [List.append_cancel_right heq]
    exact hseen
  · intro ht
    obtain ⟨rest, hrest⟩ := List.head?_eq_some_iff.1 hhead
    rw [hrest] at heq ⊢
    rcases List.append_eq_append_iff.1 heq with ⟨m, hm, hend⟩ | ⟨m, hm, hend⟩
    · cases m with
      | nil => exact hend.symm
      | cons c m =>
        obtain rfl : ']' = c := (List.cons_eq_cons.1 hend).1
        exact absurd (hm ▸ List.mem_append_right _ List.mem_cons_self) hseen
    · cases m with
      | nil => exact hend
      | cons c m =>
        obtain rfl : ']' = c := (List.cons_eq_cons.1 hend).1
        exact absurd (hm ▸ List.mem_append_right _ List.mem_cons_self) ht

theorem wikiName_eq (t : Text) : wikiName ("[[".toList ++ t) =
    if t.takeWhile (fun c => !(c == ']' || c == '|') && c != '#') ≠ [] ∧ linkRest t = "]]".toList then
      some (t.takeWhile fun c => !(c == ']' || c == '|') && c != '#') else none := by
  rw [wikiName, if_pos (startsWith_iff.2 (List.prefix_append _ _))]
  rfl

theorem wikiName_brackets {t : Text} (h : ']' ∉ t) (hne : linkName t ≠ []) :
    wikiName ("[[".toList ++ (t ++ "]]".toList)) = some (linkName t) := by
  rw [wikiName_eq, takeWhile_brackets h, if_pos ⟨hne, (linkRest_brackets t).2 h⟩]

theorem wikiName_eq_none {t : Text} (h : ']' ∈ t) : wikiName ("[[".toList ++ (t ++ "]]".toList)) = none := by
  rw [wikiName_eq, if_neg fun hand => (linkRest_brackets t).1 hand.2 h]

/-- The name a wikilink is read as has no mark of its own. -/
theorem not_mark_of_wikiName {clean name : Text} (h : wikiName clean = some name) :
    ∀ c ∈ name, c ≠ ']' ∧ c ≠ '|' ∧ c ≠ '#' := by
  simp only [wikiName, Option.ite_none_right_eq_some, Option.some.injEq] at h
  obtain ⟨-, -, rfl⟩ := h
  intro c hc
  have hchar := List.mem_takeWhile_imp hc
  simpa [and_assoc] using hchar

/-! ## A reference read -/

/-- The last steps of `pagePathFromRef`. -/
def asPath (clean : Text) : Text :=
  let clean := slashed clean
  let clean := if startsWith clean "./".toList then clean.drop 2 else if startsWith clean "/".toList then clean.drop 1 else clean
  if clean = [] then [] else if ".md".toList.isSuffixOf clean then clean else clean ++ ".md".toList

/-- A text without a quotation mark at either end. -/
def unquoted (t : Text) : Text :=
  let t := if t.head?.any isQuote then t.tail else t
  if t.getLast?.any isQuote then t.dropLast else t

theorem pagePathFromRef_eq (ref : Text) :
    pagePathFromRef ref = asPath ((wikiName (unquoted (trim ref))).elim (unquoted (trim ref)) trim) := by
  cases h : wikiName (unquoted (trim ref)) with
  | none =>
    unfold unquoted at h
    simp only [pagePathFromRef, h]
    rfl
  | some name =>
    unfold unquoted at h
    simp only [pagePathFromRef, h]
    rfl

/-- A first character that is no part of a relative path's start. -/
def StartsPlain (t : Text) : Prop := ∃ c ∈ t.head?, c ≠ '.' ∧ c ≠ '/' ∧ c ≠ '\\'

theorem asPath_eq {clean : Text} (h : StartsPlain clean) : asPath clean = pageName (slashed clean) ++ ".md".toList := by
  obtain ⟨c, hc, hdot, hslash, hback⟩ := h
  obtain ⟨rest, rfl⟩ := List.head?_eq_some_iff.1 hc
  have hcons : slashed (c :: rest) = c :: slashed rest := by simp [slashed, hback]
  have hplain : asPath (c :: rest) =
      if ".md".toList.isSuffixOf (slashed (c :: rest)) then slashed (c :: rest) else slashed (c :: rest) ++ ".md".toList := by
    have hnot : ∀ d u, c ≠ d → startsWith (c :: slashed rest) (d :: u) = false := fun d u hd =>
      Bool.eq_false_iff.2 fun h => hd (List.cons_prefix_cons.1 (startsWith_iff.1 h)).1.symm
    have hdotted : startsWith (c :: slashed rest) "./".toList = false := hnot '.' ['/'] hdot
    have hrooted : startsWith (c :: slashed rest) "/".toList = false := hnot '/' [] hslash
    simp only [asPath, hcons, hdotted, hrooted, Bool.false_eq_true, reduceIte, reduceCtorEq]
  rw [hplain]
  split
  next hmd =>
    obtain ⟨t, ht⟩ := List.isSuffixOf_iff_suffix.1 hmd
    rw [← ht, pageName_append]
  next hmd => rw [pageName_of_not_suffix fun h => hmd (List.isSuffixOf_iff_suffix.2 h)]

/-- Between brackets nothing is trimmed and no quotation mark taken. -/
theorem unquoted_trim_brackets (t : Text) :
    unquoted (trim ("[[".toList ++ (t ++ "]]".toList))) = "[[".toList ++ (t ++ "]]".toList) := by
  have hlast : ("[[".toList ++ (t ++ "]]".toList)).getLast? = some ']' := by
    rw [← List.append_assoc, List.getLast?_append_of_ne_nil _ (by decide)]
    rfl
  have htight : Tight ("[[".toList ++ (t ++ "]]".toList)) := by
    refine ⟨fun c hc => ?_, fun c hc => ?_⟩
    · obtain rfl : '[' = c := Option.some.inj hc
      decide
    · rw [hlast] at hc
      obtain rfl : ']' = c := Option.some.inj hc
      decide
  rw [htight.trim_eq]
  show (if ("[[".toList ++ (t ++ "]]".toList)).getLast?.any isQuote then _ else _) = _
  rw [hlast]
  rfl

theorem startsPlain_of_top {top rest : Text} (hne : top ≠ []) (htop : ∀ c ∈ top, isTopChar c = true) :
    StartsPlain (top ++ rest) := by
  obtain ⟨c, top, rfl⟩ := List.exists_cons_of_ne_nil hne
  have hc := htop c List.mem_cons_self
  refine ⟨c, rfl, ?_, ?_, ?_⟩ <;> rintro rfl <;> exact absurd hc (by decide)

variable {path : Text}

theorem top_of_isPage (h : isTreePage path = true) : ∃ top rest, top ≠ [] ∧ (∀ c ∈ top, isTopChar c = true) ∧
    pageName path = top ++ '/' :: rest ∧ path = pageName path ++ ".md".toList := by
  obtain ⟨top, rest, hne, htop, rfl⟩ := exists_top h
  exact ⟨top, rest, hne, htop, pageName_append _, by rw [pageName_append]⟩

theorem mem_linkName {c : Char} {t : Text} (h : c ∈ linkName t) : c ∈ t ∧ c ≠ '|' ∧ c ≠ '#' := by
  refine ⟨(List.takeWhile_prefix _).subset h, ?_⟩
  have hc := List.mem_takeWhile_imp h
  simpa using hc

/-- The name that is read still starts in the page's folder. -/
theorem linkName_of_top {top rest : Text} (htop : ∀ c ∈ top, isTopChar c = true) :
    linkName (top ++ '/' :: rest) = top ++ '/' :: linkName rest := by
  rw [linkName, List.takeWhile_append_of_pos, List.takeWhile_cons_of_pos (by decide)]
  · rfl
  · intro c hc
    have htopc := htop c hc
    have hbar : c ≠ '|' := by
      rintro rfl
      exact absurd htopc (by decide)
    have hanchor : c ≠ '#' := by
      rintro rfl
      exact absurd htopc (by decide)
    simp [hbar, hanchor]

theorem not_space_of_isTopChar {c : Char} (h : isTopChar c = true) : Js.isSpace c = false := by
  have hrange : 0x41 ≤ c.toNat ∧ c.toNat ≤ 0x7a := by
    simp only [isTopChar, Bool.or_eq_true, beq_iff_eq] at h
    rcases h with hletter | rfl
    · have := toNat_of_isAlpha hletter
      omega
    · decide
  simp only [Js.isSpace, Bool.or_eq_false_iff, Bool.and_eq_false_iff, decide_eq_false_iff_not, beq_eq_false_iff_ne]
  omega

theorem trimEnd_append_cons {c : Char} (h : Js.isSpace c = false) (s t : Text) :
    trimEnd (s ++ c :: t) = s ++ c :: trimEnd t := by
  simp only [trimEnd, List.rdropWhile, List.reverse_append, List.reverse_cons, List.append_assoc, List.dropWhile_append]
  split
  next hnil =>
    rw [List.isEmpty_iff] at hnil
    simp [hnil, h]
  next => simp

theorem trim_of_top {top : Text} (hne : top ≠ []) (htop : ∀ c ∈ top, isTopChar c = true) (rest : Text) :
    trim (top ++ '/' :: rest) = top ++ '/' :: trimEnd rest := by
  have hfront : (top ++ '/' :: rest).dropWhile Js.isSpace = top ++ '/' :: rest := by
    obtain ⟨c, top, rfl⟩ := List.exists_cons_of_ne_nil hne
    rw [List.cons_append, List.dropWhile_cons_of_neg]
    rw [not_space_of_isTopChar (htop c List.mem_cons_self)]
    exact Bool.false_ne_true
  rw [Text.trim_eq, hfront]
  exact trimEnd_append_cons (by decide) top rest

/-- **What a parent reference is read as.** -/
theorem pagePathFromRef_parentRef (h : isTreePage path = true) (hbracket : ']' ∉ pageName path) :
    pagePathFromRef (parentRef path) = readName path ++ ".md".toList := by
  obtain ⟨top, rest, hne, htop, hname, -⟩ := top_of_isPage h
  have hlink : linkName (pageName path) ≠ [] := by
    rw [hname, linkName_of_top htop]
    exact List.append_ne_nil_of_left_ne_nil hne _
  rw [pagePathFromRef_eq, parentRef, List.append_assoc, unquoted_trim_brackets, wikiName_brackets hbracket hlink, Option.elim_some,
    asPath_eq, readName]
  rw [hname, linkName_of_top htop, trim_of_top hne htop]
  exact startsPlain_of_top hne htop

theorem pagePathFromRef_bracket (h : ']' ∈ pageName path) :
    pagePathFromRef (parentRef path) = "[[".toList ++ slashed (pageName path) ++ "]].md".toList := by
  have hslashed : slashed ("[[".toList ++ (pageName path ++ "]]".toList)) =
      "[[".toList ++ slashed (pageName path) ++ "]]".toList := by
    rw [slashed, List.map_append, List.map_append, ← List.append_assoc]
    rfl
  have hsuffix : ¬".md".toList <:+ "[[".toList ++ slashed (pageName path) ++ "]]".toList := by
    intro hmd
    have htwo : "md".toList <:+ "[[".toList ++ slashed (pageName path) ++ "]]".toList := List.IsSuffix.trans ⟨['.'], rfl⟩ hmd
    have hlast := List.suffix_of_suffix_length_le htwo (List.suffix_append _ "]]".toList) (by decide)
    exact absurd hlast (by decide)
  rw [pagePathFromRef_eq, parentRef, List.append_assoc, unquoted_trim_brackets, wikiName_eq_none h, Option.elim_none,
    asPath_eq ⟨'[', rfl, by decide, by decide, by decide⟩, hslashed, pageName_of_not_suffix hsuffix, List.append_assoc]
  rfl

theorem mem_slashed {c : Char} {t : Text} (h : c ∈ slashed t) : c ≠ '\\' ∧ (c = '/' ∨ c ∈ t) := by
  obtain ⟨d, hd, rfl⟩ := List.mem_map.1 h
  split
  next => exact ⟨by decide, Or.inl rfl⟩
  next hne => exact ⟨hne, Or.inr hd⟩

theorem slashed_eq_self {t : Text} (h : '\\' ∉ t) : slashed t = t := by
  have hid : ∀ c ∈ t, (if c = '\\' then '/' else c) = id c := by
    intro c hc
    refine if_neg ?_
    rintro rfl
    exact h hc
  rw [slashed, List.map_congr_left hid, List.map_id]

/-- A separator is a mark, read as the other or not. -/
theorem marks_slashed (t : Text) : ((slashed t).filter isMark).length = (t.filter isMark).length := by
  have hmark : isMark ∘ (fun c => if c = '\\' then '/' else c) = isMark := by
    funext c
    by_cases h : c = '\\'
    · rw [h]
      decide
    · rw [Function.comp_apply, if_neg h]
  rw [← List.countP_eq_length_filter, ← List.countP_eq_length_filter, slashed, List.countP_map, hmark]

/-- **A legible path is one that is read as itself.** -/
theorem legiblePath_iff : LegiblePath path ↔ ']' ∉ pageName path ∧ readName path = pageName path := by
  constructor
  · intro h
    have hmark : ∀ c ∈ pageName path, c ≠ ']' ∧ c ≠ '|' ∧ c ≠ '#' ∧ c ≠ '\\' := by
      intro c hc
      refine ⟨?_, ?_, ?_, ?_⟩ <;> rintro rfl <;> exact h.marks _ hc (by decide)
    have hlink : linkName (pageName path) = pageName path := by
      rw [linkName, List.takeWhile_eq_self_iff]
      intro c hc
      simp [(hmark c hc).2.1, (hmark c hc).2.2.1]
    have hslashed : slashed (pageName path) = pageName path := slashed_eq_self fun hin => (hmark _ hin).2.2.2 rfl
    refine ⟨fun hin => (hmark _ hin).1 rfl, ?_⟩
    rw [readName, hlink, h.tight, hslashed, pageName_of_not_suffix h.suffix]
  · rintro ⟨hbracket, hread⟩
    -- Nothing was taken away, so each step left the name as it is.
    have hlength := congrArg List.length hread
    have hpage := (pageName_start (slashed (trim (linkName (pageName path))))).length_le
    have hslashed : (slashed (trim (linkName (pageName path)))).length = (trim (linkName (pageName path))).length := List.length_map _
    have htrim := (trim_sublist (linkName (pageName path))).length_le
    have hlink := (List.takeWhile_prefix (l := pageName path) fun c => decide (c ≠ '|' ∧ c ≠ '#')).length_le
    rw [← linkName] at hlink
    rw [readName] at hread hlength
    have hlinkEq : linkName (pageName path) = pageName path := (List.takeWhile_prefix _).eq_of_length_le (by rw [← linkName]; omega)
    rw [hlinkEq] at hread hlength hpage hslashed htrim
    have htrimEq : trim (pageName path) = pageName path := (trim_sublist _).eq_of_length_le (by omega)
    rw [htrimEq] at hread hlength hpage hslashed
    have hpageEq : pageName (slashed (pageName path)) = slashed (pageName path) :=
      (pageName_start _).eq_of_length_le (by omega)
    rw [hpageEq] at hread
    refine ⟨fun c hc hmark => ?_, htrimEq, fun hmd => ?_⟩
    · have hbar := (mem_linkName (hlinkEq.symm ▸ hc)).2
      have hback := (mem_slashed (hread.symm ▸ hc)).1
      have hcases : c = ']' ∨ c = '|' ∨ c = '#' ∨ c = '\\' := by simpa using hmark
      rcases hcases with rfl | rfl | rfl | rfl
      · exact hbracket hc
      · exact hbar.1 rfl
      · exact hbar.2 rfl
      · exact hback rfl
    · obtain ⟨t, ht⟩ := hmd
      rw [hread, ← ht, pageName_append] at hpageEq
      have := congrArg List.length hpageEq
      rw [List.length_append] at this
      exact absurd this (by simp)


theorem pagePathFromRef_eq_self (h : isTreePage path = true) : pagePathFromRef (parentRef path) = path ↔ LegiblePath path := by
  obtain ⟨top, rest, hne, htop, hname, hpath⟩ := top_of_isPage h
  rw [legiblePath_iff]
  by_cases hbracket : ']' ∈ pageName path
  · refine iff_of_false (fun heq => ?_) fun hand => hand.1 hbracket
    rw [pagePathFromRef_bracket hbracket, hpath, hname] at heq
    obtain ⟨c, top, rfl⟩ := List.exists_cons_of_ne_nil hne
    obtain rfl : '[' = c := (List.cons_eq_cons.1 heq).1
    exact absurd (htop '[' List.mem_cons_self) (by decide)
  · rw [pagePathFromRef_parentRef h hbracket, and_iff_right hbracket]
    nth_rewrite 2 [hpath]
    exact List.append_left_inj _

/-! ## The files of a vault by path and by name -/

variable {lib}

/-- The marks of a text survive in lower case. -/
theorem marks_eq (hlib : lib.KeepsMarks) {s t : Text} (h : lib.toLowerCase s = lib.toLowerCase t) :
    s.filter isMark = t.filter isMark := by
  rw [← hlib s, ← hlib t, h]

theorem slash_mem_lower (hlib : lib.KeepsMarks) (t : Text) : '/' ∈ lib.toLowerCase t ↔ '/' ∈ t := by
  have hmark : ∀ t : Text, '/' ∈ t ↔ '/' ∈ t.filter isMark := fun t => by
    rw [List.mem_filter, and_iff_left (by decide)]
  rw [hmark, hlib, ← hmark]

theorem not_slash_lastSegment (t : Text) : '/' ∉ lastSegment t := not_mem_getLast_splitOn '/' t

theorem lastSegment_slash (s t : Text) : lastSegment (s ++ '/' :: t) = lastSegment t := getLast_splitOn_behind '/' s t

theorem lastSegment_of_not_slash {t : Text} (h : '/' ∉ t) : lastSegment t = t := by
  rw [lastSegment, segments, List.splitOn_eq_singleton h]
  rfl

theorem lastSegment_cases (t : Text) : lastSegment t = t ∨ ∃ s, t = s ++ '/' :: lastSegment t :=
  (getLast_splitOn_cases '/' t).imp_left And.left

theorem basenameOf_eq (t : Text) : basenameOf t = pageName (lastSegment t) := rfl

theorem not_slash_basenameOf (t : Text) : '/' ∉ basenameOf t := fun h =>
  not_slash_lastSegment t ((pageName_start _).subset h)

theorem basenameOf_append (t : Text) : basenameOf (t ++ ".md".toList) = lastSegment t := by
  rw [basenameOf_eq, lastSegment, segments, getLast_splitOn_append (by decide), pageName_append]
  rfl

theorem pageName_cases (t : Text) : t = pageName t ∨ t = pageName t ++ ".md".toList := by
  by_cases hmd : ".md".toList <:+ t
  · obtain ⟨u, rfl⟩ := hmd
    exact Or.inr (by rw [pageName_append])
  · exact Or.inl (pageName_of_not_suffix hmd).symm

theorem basenameOf_of_not_slash {t : Text} (h : '/' ∉ pageName t) : basenameOf t = pageName t := by
  have ht : '/' ∉ t := by
    rcases pageName_cases t with ht | ht <;> rw [ht]
    · exact h
    · exact fun hin => (List.mem_append.1 hin).elim h (by decide)
  rw [basenameOf_eq, lastSegment, segments, List.splitOn_eq_singleton ht]
  rfl

theorem lookup_linkTargets (f : Text) (files : List Text) (key : Text) :
    lookup (linkTargets lib (f :: files)) key =
      if lib.toLowerCase (pageName f) = key ∨ lib.toLowerCase (basenameOf f) = key then some f
      else lookup (linkTargets lib files) key := by
  show lookup ((lib.toLowerCase (pageName f), f) :: (lib.toLowerCase (basenameOf f), f) :: linkTargets lib files) key = _
  simp only [lookup, List.find?_cons]
  by_cases hpath : lib.toLowerCase (pageName f) = key <;> by_cases hname : lib.toLowerCase (basenameOf f) = key <;>
    simp [hpath, hname]

theorem firstAlike_cons (part : Text → Text) (f : Text) (files : List Text) (t : Text) :
    firstAlike lib part (f :: files) t =
      if lib.toLowerCase (part f) = lib.toLowerCase t then some f else firstAlike lib part files t := by
  simp only [firstAlike, List.find?_cons]
  by_cases h : lib.toLowerCase (part f) = lib.toLowerCase t <;> simp [h]

/-- A path is looked up among the paths. -/
theorem lookup_path (hlib : lib.KeepsMarks) (files : List Text) {t : Text} (h : '/' ∈ t) :
    lookup (linkTargets lib files) (lib.toLowerCase t) = firstAlike lib pageName files t := by
  induction files with
  | nil => rfl
  | cons f files ih =>
    have hname : lib.toLowerCase (basenameOf f) ≠ lib.toLowerCase t := by
      intro heq
      have hslash := (slash_mem_lower hlib t).2 h
      rw [← heq, slash_mem_lower hlib] at hslash
      exact not_slash_basenameOf f hslash
    rw [lookup_linkTargets, firstAlike_cons, ih]
    simp only [hname, or_false]

/-- A name is looked up among the names. -/
theorem lookup_name (hlib : lib.KeepsMarks) (files : List Text) {t : Text} (h : '/' ∉ t) :
    lookup (linkTargets lib files) (lib.toLowerCase t) = firstAlike lib basenameOf files t := by
  induction files with
  | nil => rfl
  | cons f files ih =>
    have hpath : lib.toLowerCase (pageName f) = lib.toLowerCase t → lib.toLowerCase (basenameOf f) = lib.toLowerCase t := by
      intro heq
      have hslash : '/' ∉ pageName f := fun hin => by
        have hlower := (slash_mem_lower hlib _).2 hin
        rw [heq, slash_mem_lower hlib] at hlower
        exact h hlower
      rw [basenameOf_of_not_slash hslash, heq]
    rw [lookup_linkTargets, firstAlike_cons, ih]
    simp only [or_iff_right_of_imp hpath]

variable {index : TreeIndex} {files : List Text}

theorem firstAlike_eq_some {part : Text → Text} {t : Text} (h : firstAlike lib part files t = some path) :
    lib.toLowerCase (part path) = lib.toLowerCase t := by
  have hfound := List.find?_some h
  simpa using hfound

/-- **A reference is resolved by its path, and where no file has that by its name.** -/
theorem resolveRef_eq (hlib : lib.KeepsMarks) (hindex : index.linkTargets = linkTargets lib files) {ref t : Text}
    (href : pagePathFromRef ref = t ++ ".md".toList) (h : '/' ∈ t) :
    index.resolveRef lib ref = (firstAlike lib pageName files t).or (firstAlike lib basenameOf files (lastSegment t)) := by
  have hne : pagePathFromRef ref ≠ [] := by
    rw [href]
    exact List.append_ne_nil_of_right_ne_nil _ (by decide)
  have hkey : withoutSuffix ".md".toList (pagePathFromRef ref) = t := by
    rw [href]
    exact pageName_append t
  simp only [TreeIndex.resolveRef, if_neg hne]
  rw [hkey, hindex, href, basenameOf_append, lookup_path hlib files h, lookup_name hlib files (not_slash_lastSegment t)]

theorem slash_mem_readName (h : isTreePage path = true) : '/' ∈ readName path := by
  obtain ⟨top, rest, hne, htop, hname, -⟩ := top_of_isPage h
  have hslash : '/' ∈ slashed (trim (linkName (pageName path))) := by
    rw [hname, linkName_of_top htop, trim_of_top hne htop, slashed, List.map_append]
    exact List.mem_append_right _ List.mem_cons_self
  rw [readName]
  rcases pageName_cases (slashed (trim (linkName (pageName path)))) with heq | heq
  · rw [← heq]
    exact hslash
  · rw [heq] at hslash
    exact (List.mem_append.1 hslash).resolve_right (by decide)

theorem mem_readName {c : Char} (h : c ∈ readName path) : c ≠ '\\' ∧ (c = '/' ∨ c ≠ '|' ∧ c ≠ '#') := by
  have hslashed := mem_slashed ((pageName_start _).subset h)
  exact ⟨hslashed.1, hslashed.2.imp_right fun hin => (mem_linkName ((trim_sublist _).subset hin)).2⟩

/-- **A path misread has other marks.** -/
theorem readName_of_marks (h : isTreePage path = true)
    (hmarks : (readName path).filter isMark = (pageName path).filter isMark) : readName path = pageName path := by
  have hkept : ∀ c, isMark c = true → c ∈ pageName path → c ∈ readName path := fun c hc hin =>
    (List.mem_filter.1 (hmarks.symm ▸ List.mem_filter.2 ⟨hin, hc⟩)).1
  obtain ⟨top, rest, hne, htop, hname, -⟩ := top_of_isPage h
  have hlink : linkName (pageName path) = pageName path := by
    rw [linkName, List.takeWhile_eq_self_iff]
    intro c hc
    have hbar : c ≠ '|' := by
      rintro rfl
      exact ((mem_readName (hkept _ (by decide) hc)).2.resolve_left (by decide)).1 rfl
    have hanchor : c ≠ '#' := by
      rintro rfl
      exact ((mem_readName (hkept _ (by decide) hc)).2.resolve_left (by decide)).2 rfl
    simp [hbar, hanchor]
  have hslashed : slashed (trim (pageName path)) = trim (pageName path) := slashed_eq_self fun hin =>
    (mem_readName (hkept _ (by decide) ((trim_sublist _).subset hin))).1 rfl
  have hread : readName path = pageName (trim (pageName path)) := by rw [readName, hlink, hslashed]
  have hspaces : pageName path = trim (pageName path) ++ rest.rtakeWhile Js.isSpace := by
    rw [hname, trim_of_top hne htop, List.append_assoc, List.cons_append, trimEnd, List.rdropWhile_append_rtakeWhile]
  -- What the reading would have taken from the end, a suffix or white space, is marks.
  have hnone : (rest.rtakeWhile Js.isSpace).filter isMark = rest.rtakeWhile Js.isSpace := by
    rw [List.filter_eq_self]
    intro c hc
    have hspace := List.mem_rtakeWhile_imp hc
    simp [isMark, hspace]
  have hlength := congrArg List.length hmarks
  rw [hread, hspaces, List.filter_append, hnone, List.length_append, ← hspaces] at hlength
  rcases pageName_cases (trim (pageName path)) with htrim | htrim
  · rw [← htrim] at hlength
    have hnil : rest.rtakeWhile Js.isSpace = [] := List.length_eq_zero_iff.1 (by omega)
    rw [hnil, List.append_nil] at hspaces
    rw [hread, ← htrim, ← hspaces]
  · nth_rewrite 2 [htrim] at hlength
    rw [List.filter_append, List.length_append] at hlength
    have hdot : (".md".toList.filter isMark).length = 1 := by decide
    omega

/-- A name between brackets is no page's name. -/
theorem marks_lastSegment (rest : Text) :
    (lastSegment (slashed rest) ++ "]]".toList).filter isMark ≠ (lastSegment rest).filter isMark := by
  intro heq
  have hback : '\\' ∉ lastSegment rest := by
    intro hin
    have hleft := (List.mem_filter.1 (heq ▸ List.mem_filter.2 ⟨hin, by decide⟩)).1
    have hslashed := (List.mem_append.1 hleft).resolve_right (by decide)
    refine (@mem_slashed _ rest ?_).1 rfl
    rcases lastSegment_cases (slashed rest) with hlast | ⟨s, hs⟩
    · exact hlast ▸ hslashed
    · rw [hs]
      exact List.mem_append_right _ (List.mem_cons_of_mem _ hslashed)
  have hself := slashed_eq_self hback
  have hlast : lastSegment (slashed rest) = lastSegment rest := by
    rcases lastSegment_cases rest with hrest | ⟨s, hs⟩
    · rw [hrest] at hself
      rw [hself]
    · have hmap : slashed rest = slashed s ++ '/' :: slashed (lastSegment rest) := by
        nth_rewrite 1 [hs]
        rw [slashed, List.map_append]
        rfl
      rw [hmap, lastSegment_slash, hself, lastSegment_of_not_slash (not_slash_lastSegment rest)]
  rw [hlast, List.filter_append] at heq
  have hlength := congrArg List.length heq
  have hbrackets : ("]]".toList.filter isMark).length = 2 := by decide
  rw [List.length_append] at hlength
  omega

/-- A page whose path has a closing bracket is not found. -/
theorem not_found_bracket (hlib : lib.KeepsMarks) (h : isTreePage path = true) :
    firstAlike lib pageName files ("[[".toList ++ slashed (pageName path) ++ "]]".toList) ≠ some path ∧
      firstAlike lib basenameOf files (lastSegment ("[[".toList ++ slashed (pageName path) ++ "]]".toList)) ≠ some path := by
  obtain ⟨top, rest, -, htop, hname, hpath⟩ := top_of_isPage h
  constructor
  · intro hfound
    have hlength := congrArg List.length (marks_eq hlib (firstAlike_eq_some hfound))
    rw [List.filter_append, List.filter_append, List.length_append, List.length_append, marks_slashed] at hlength
    have hbrackets : ("]]".toList.filter isMark).length = 2 := by decide
    omega
  · intro hfound
    have hmarks := marks_eq hlib (firstAlike_eq_some hfound)
    have hshape : "[[".toList ++ slashed (pageName path) ++ "]]".toList =
        ("[[".toList ++ slashed top) ++ '/' :: (slashed rest ++ "]]".toList) := by
      rw [hname, slashed, List.map_append]
      simp only [List.append_assoc]
      rfl
    have hbase : basenameOf path = lastSegment rest := by
      rw [hpath, basenameOf_append, hname, lastSegment_slash]
    rw [hshape, lastSegment_slash, lastSegment, segments, getLast_splitOn_append (by decide), hbase] at hmarks
    exact marks_lastSegment rest hmarks.symm

/-- **A parent reference finds its page exactly when the path is findable.** -/
theorem resolveRef_parentRef (hlib : lib.KeepsMarks) (hindex : index.linkTargets = linkTargets lib files)
    (h : isTreePage path = true) : index.resolveRef lib (parentRef path) = some path ↔ Findable lib files path := by
  obtain ⟨top, rest, -, -, hname, hpath⟩ := top_of_isPage h
  by_cases hbracket : ']' ∈ pageName path
  · have href : pagePathFromRef (parentRef path) = "[[".toList ++ slashed (pageName path) ++ "]]".toList ++ ".md".toList := by
      rw [pagePathFromRef_bracket hbracket, List.append_assoc _ "]]".toList]
      rfl
    have hslash : '/' ∈ "[[".toList ++ slashed (pageName path) ++ "]]".toList := by
      refine List.mem_append_left _ (List.mem_append_right _ ?_)
      rw [hname, slashed, List.map_append]
      exact List.mem_append_right _ List.mem_cons_self
    obtain ⟨hbyPath, hbyName⟩ := @not_found_bracket _ _ files hlib h
    rw [resolveRef_eq hlib hindex href hslash]
    refine iff_of_false (fun heq => ?_) ?_
    · exact (Option.or_eq_some_iff.1 heq).elim hbyPath fun hand => hbyName hand.2
    · rintro (⟨hlegible, -⟩ | ⟨-, hnot, -⟩)
      · exact (legiblePath_iff.1 hlegible).1 hbracket
      · exact hnot hbracket
  · rw [resolveRef_eq hlib hindex (pagePathFromRef_parentRef h hbracket) (slash_mem_readName h), Option.or_eq_some_iff]
    by_cases hlegible : LegiblePath path
    · rw [(legiblePath_iff.1 hlegible).2]
      have hfirst : firstAlike lib pageName files (pageName path) = none → path ∉ files := by
        intro hnone hin
        have hother := List.find?_eq_none.1 hnone path hin
        simp at hother
      refine ⟨fun heq => Or.inl ⟨hlegible, heq.resolve_right fun hand => hfirst hand.1 ?_⟩, fun heq => ?_⟩
      · exact List.mem_of_find?_eq_some hand.2
      · rcases heq with hand | hand
        · exact Or.inl hand.2
        · exact absurd hlegible hand.1
    · have hother : firstAlike lib pageName files (readName path) ≠ some path := by
        intro hfound
        refine hlegible (legiblePath_iff.2 ⟨hbracket, ?_⟩)
        exact readName_of_marks h (marks_eq hlib (firstAlike_eq_some hfound)).symm
      constructor
      · intro heq
        exact Or.inr ⟨hlegible, hbracket, (heq.resolve_left hother).1, (heq.resolve_left hother).2⟩
      · rintro (⟨hlegible', -⟩ | ⟨-, -, hand⟩)
        · exact absurd hlegible' hlegible
        · exact Or.inr hand

end Zenod.Vault
