/-
A note of the vault: its path (`vault/files.ts`), and its text as frontmatter
and body (`vault/frontmatter.ts`).

The YAML library is a parameter (`Yaml`): what it parses and how it prints,
and `Yaml.Lawful`, what is known of it. `parseNote_envelope`: a body behind a
closed frontmatter block is read back as it is, with the block's data.
-/
import Zenod.Lib.Text

namespace Zenod.Vault

open Text

/-! ## Paths -/

inductive Tier | evidence | meaning | inbox | other
deriving DecidableEq, Repr

inductive MeaningType | project | area | note
deriving DecidableEq, Repr

/-- Meaning folder and the frontmatter `type` it requires. -/
def meaningFolders : List (Text × MeaningType) :=
  [("Projects".toList, .project), ("Areas".toList, .area), ("Notes".toList, .note)]

/-- The names every JavaScript object has; `in` finds them too. -/
def objectNames : List Text :=
  ["constructor".toList, "hasOwnProperty".toList, "isPrototypeOf".toList, "propertyIsEnumerable".toList,
    "toLocaleString".toList, "toString".toList, "valueOf".toList, "__proto__".toList, "__defineGetter__".toList,
    "__defineSetter__".toList, "__lookupGetter__".toList, "__lookupSetter__".toList]

def segments (path : Text) : List Text := path.splitOn '/'

def tierOf (relPath : Text) : Tier :=
  let top := (segments relPath).headD []
  if top = "Log".toList ∨ top = "_attachments".toList then .evidence
  else if (meaningFolders.map (·.1)).contains top ∨ objectNames.contains top then .meaning
  else if top = "Inbox".toList then .inbox
  else .other

def basenameOf (relPath : Text) : Text := withoutSuffix ".md".toList ((segments relPath).getLastD [])

def isIndexFile (relPath : Text) : Bool :=
  let base := basenameOf relPath
  base == "index".toList || "Index".toList.isSuffixOf base

def skipDirs : List Text := [".git".toList, ".obsidian".toList, ".brain".toList, "node_modules".toList]

/-- The files `listMarkdownFiles` keeps, of those below a vault's folder. -/
def isListed (path : Text) : Bool :=
  (segments path).all (fun name => !skipDirs.contains name) && ".md".toList.isSuffixOf path

/-! ## Frontmatter -/

/-- What a YAML document holds; a number by its text. -/
inductive Value
  | null
  | bool (b : Bool)
  | num (text : Text)
  | str (text : Text)
  | list (items : List Value)
  | map (entries : List (Text × Value))

abbrev Frontmatter := List (Text × Value)

def Frontmatter.get (f : Frontmatter) (key : Text) : Option Value := (f.find? (·.1 = key)).map (·.2)

def Value.text? : Value → Option Text
  | .str t => some t
  | _ => none

/-- A string value under a key. -/
def Frontmatter.text (f : Frontmatter) (key : Text) : Option Text := (f.get key).bind Value.text?

/-- `frontmatter[key] = value`: a key that is there keeps its place. -/
def Frontmatter.set (f : Frontmatter) (key : Text) (value : Value) : Frontmatter :=
  if f.any (·.1 = key) then f.map fun e => if e.1 = key then (key, value) else e else f ++ [(key, value)]

/-- `delete frontmatter[key]`. -/
def Frontmatter.erase (f : Frontmatter) (key : Text) : Frontmatter := f.filter (·.1 ≠ key)

mutual

/-- `JSON.stringify`. -/
def Value.json : Value → Text
  | .null => "null".toList
  | .bool b => if b then "true".toList else "false".toList
  | .num t => t
  | .str t => Js.quote (String.ofList t)
  | .list items => "[".toList ++ jsonItems items ++ "]".toList
  | .map entries => "\x7b".toList ++ jsonEntries entries ++ "\x7d".toList

def jsonItems : List Value → Text
  | [] => []
  | [v] => v.json
  | v :: rest => v.json ++ ",".toList ++ jsonItems rest

def jsonEntries : List (Text × Value) → Text
  | [] => []
  | [(key, v)] => Js.quote (String.ofList key) ++ ":".toList ++ v.json
  | (key, v) :: rest => Js.quote (String.ofList key) ++ ":".toList ++ v.json ++ ",".toList ++ jsonEntries rest

end

/-- `yaml`: `parse`, which throws on a malformed document, and `stringify` without folding. -/
structure Yaml where
  parse : Text → Option Value
  stringify : Value → Text

structure ParsedNote where
  /-- None when the file has no frontmatter block. -/
  frontmatter : Option Frontmatter
  body : Text

/-- The texts before and behind the closing `\n---`, behind the opening `---`. -/
def splitFrontmatter (raw : Text) : Option (Text × Text) :=
  if startsWith raw "---\n".toList || startsWith raw "---\r\n".toList then cut "\n---".toList (raw.drop 3) else none

/-- The YAML between the marks, with its last newline. -/
def yamlBlock (before : Text) : Text := ((before ++ ['\n']).dropWhile (· ≠ '\n')).drop 1

/-- What follows the closing line. -/
def bodyBehind (behind : Text) : Text := (behind.dropWhile (· ≠ '\n')).drop 1

variable (yaml : Yaml)

def parseNote (raw : Text) : ParsedNote :=
  match splitFrontmatter raw with
  | none => { frontmatter := none, body := raw }
  | some (before, behind) =>
    match yaml.parse (yamlBlock before) with
    | some (.map data) => { frontmatter := some data, body := bodyBehind behind }
    | _ => { frontmatter := none, body := bodyBehind behind }

/-- `serializeNote` of any value. -/
def serializeValue (value : Value) (body : Text) : Text :=
  "---\n".toList ++ trimEnd (yaml.stringify value) ++ "\n---\n\n".toList ++ body.dropWhile (· = '\n')

def serializeNote (frontmatter : Frontmatter) (body : Text) : Text := serializeValue yaml (.map frontmatter) body

/-! ## The envelope -/

variable {yaml}

def openings : List Text := ["---\n".toList, "---\r\n".toList]

def closing : Text := "\n---".toList

theorem splitFrontmatter_eq_some {raw : Text} {r : Text × Text} :
    splitFrontmatter raw = some r ↔ (∃ p ∈ openings, p <+: raw) ∧ cut closing (raw.drop 3) = some r := by
  have hopen : (startsWith raw "---\n".toList || startsWith raw "---\r\n".toList) = true ↔ ∃ p ∈ openings, p <+: raw := by
    rw [Bool.or_eq_true, startsWith_iff, startsWith_iff, openings, List.exists_mem_cons_iff, List.exists_mem_cons_iff]
    exact ⟨Or.imp_right Or.inl, Or.imp_right fun h => h.resolve_right fun ⟨_, hp, _⟩ => (by cases hp)⟩
  unfold splitFrontmatter
  rw [← hopen]
  split
  next h => exact ⟨fun hr => ⟨h, hr⟩, fun hr => hr.2⟩
  next h => exact ⟨fun hr => (by cases hr), fun hr => absurd hr.1 h⟩

/-- A block with a note's opening keeps it with other text behind its closing mark. -/
theorem splitFrontmatter_swap {before behind : Text}
    (h : splitFrontmatter ("---".toList ++ before ++ closing ++ behind) = some (before, behind)) (behind' : Text) :
    splitFrontmatter ("---".toList ++ before ++ closing ++ behind') = some (before, behind') := by
  obtain ⟨⟨p, hp, hstart⟩, hcut⟩ := splitFrontmatter_eq_some.1 h
  have hlength : p.length ≤ ("---".toList ++ before ++ closing).length := by
    have hshort : p.length ≤ 5 := by
      rcases List.mem_cons.1 hp with rfl | hp
      · decide
      · rw [List.mem_singleton.1 hp]
        decide
    have hlong : ("---".toList ++ before ++ closing).length = 3 + before.length + 4 := by
      rw [List.length_append, List.length_append]
      rfl
    omega
  refine splitFrontmatter_eq_some.2 ⟨⟨p, hp, ?_⟩, ?_⟩
  · exact (List.prefix_of_prefix_length_le hstart (List.prefix_append _ _) hlength).trans (List.prefix_append _ _)
  · exact cut_swap hcut behind'

theorem bodyBehind_append {line : Text} (h : SingleLine line) (body : Text) : bodyBehind (line ++ '\n' :: body) = body := by
  have hdrop : (line ++ '\n' :: body).dropWhile (· ≠ '\n') = '\n' :: body := by
    rw [List.dropWhile_append_of_pos]
    · rfl
    · intro c hc
      have hne : c ≠ '\n' := fun heq => h (heq ▸ hc)
      simpa using hne
  rw [bodyBehind, hdrop]
  rfl

/-- What is behind the closing mark: the rest of its line, and the body if the line ends. -/
theorem behind_cases (behind : Text) :
    (∃ line, SingleLine line ∧ behind = line ++ '\n' :: bodyBehind behind) ∨ SingleLine behind ∧ bodyBehind behind = [] := by
  by_cases h : '\n' ∈ behind
  · obtain ⟨line, body, rfl, hline⟩ := List.eq_append_cons_of_mem h
    exact Or.inl ⟨line, hline, by rw [bodyBehind_append hline]⟩
  · refine Or.inr ⟨h, ?_⟩
    have hdrop : behind.dropWhile (· ≠ '\n') = [] := by
      rw [List.dropWhile_eq_nil_iff]
      intro c hc
      have hne : c ≠ '\n' := fun heq => h (heq ▸ hc)
      simpa using hne
    rw [bodyBehind, hdrop]
    rfl

theorem parseNote_of_split {raw before behind : Text} {f : Frontmatter}
    (hsplit : splitFrontmatter raw = some (before, behind)) (hparse : yaml.parse (yamlBlock before) = some (.map f)) :
    parseNote yaml raw = { frontmatter := some f, body := bodyBehind behind } := by
  rw [parseNote, hsplit]
  simp only [hparse]

theorem split_of_parseNote {raw : Text} {f : Frontmatter} (h : (parseNote yaml raw).frontmatter = some f) :
    ∃ before behind, raw = "---".toList ++ before ++ closing ++ behind ∧ splitFrontmatter raw = some (before, behind) ∧
      yaml.parse (yamlBlock before) = some (.map f) := by
  unfold parseNote at h
  split at h
  next => cases h
  next before behind hsplit =>
    obtain ⟨⟨p, hp, hstart⟩, hcut⟩ := splitFrontmatter_eq_some.1 hsplit
    have hthree : "---".toList <+: raw := by
      refine List.IsPrefix.trans ?_ hstart
      rcases List.mem_cons.1 hp with rfl | hp
      · exact ⟨"\n".toList, rfl⟩
      · rw [List.mem_singleton.1 hp]
        exact ⟨"\r\n".toList, rfl⟩
    have hraw : raw = "---".toList ++ raw.drop 3 := (List.prefix_iff_eq_append.1 hthree).symm
    refine ⟨before, behind, ?_, hsplit, ?_⟩
    · rw [hraw, cut_eq_some hcut]
      simp only [List.append_assoc]
    · split at h
      next data hparse =>
        cases h
        exact hparse
      next => cases h

/-- **A note's frontmatter stays in front of another body**; where the closing line has no end, one that starts with a
newline. -/
theorem parseNote_reopened {raw : Text} {f : Frontmatter} (h : (parseNote yaml raw).frontmatter = some f) :
    (∀ rest, parseNote yaml (raw.take (raw.length - (parseNote yaml raw).body.length) ++ rest) =
      { frontmatter := some f, body := rest }) ∨
    ((parseNote yaml raw).body = [] ∧ ∀ rest, parseNote yaml (raw ++ '\n' :: rest) = { frontmatter := some f, body := rest }) := by
  obtain ⟨before, behind, hraw, hsplit, hparse⟩ := split_of_parseNote h
  rw [parseNote_of_split hsplit hparse]
  rw [hraw] at hsplit
  rcases behind_cases behind with ⟨line, hline, hbehind⟩ | ⟨hline, hbody⟩
  · left
    intro rest
    have htake : raw.take (raw.length - (bodyBehind behind).length) = "---".toList ++ before ++ closing ++ (line ++ ['\n']) := by
      have heq : raw = ("---".toList ++ before ++ closing ++ (line ++ ['\n'])) ++ bodyBehind behind := by
        rw [hraw]
        nth_rewrite 1 [hbehind]
        simp only [List.append_assoc, List.singleton_append]
      rw [heq, List.length_append, Nat.add_sub_cancel, List.take_left]
    rw [htake, List.append_assoc _ (line ++ ['\n']) rest,
      parseNote_of_split (splitFrontmatter_swap hsplit (line ++ ['\n'] ++ rest)) hparse, List.append_assoc,
      List.singleton_append, bodyBehind_append hline]
  · right
    refine ⟨hbody, fun rest => ?_⟩
    rw [hraw, List.append_assoc _ behind,
      parseNote_of_split (splitFrontmatter_swap hsplit (behind ++ '\n' :: rest)) hparse, bodyBehind_append hline]

/-- No line of a YAML text starts like a closing mark. -/
def Closed (block : Text) : Prop := ¬closing <:+: '\n' :: block

theorem splitFrontmatter_envelope {block : Text} (h : Closed block) (behind : Text) :
    splitFrontmatter ("---\n".toList ++ block ++ closing ++ behind) = some ('\n' :: block, behind) := by
  refine splitFrontmatter_eq_some.2 ⟨⟨_, List.mem_cons_self, ?_⟩, ?_⟩
  · rw [List.append_assoc, List.append_assoc]
    exact List.prefix_append _ _
  · exact cut_of_not_infix (by decide) h behind

/-- **A body behind a closed frontmatter block is read back as it is.** -/
theorem parseNote_envelope {block : Text} (h : Closed block) (rest : Text) :
    (parseNote yaml ("---\n".toList ++ block ++ closing ++ '\n' :: rest)).body = rest ∧
      ∀ f, yaml.parse (block ++ ['\n']) = some (.map f) →
        (parseNote yaml ("---\n".toList ++ block ++ closing ++ '\n' :: rest)).frontmatter = some f := by
  have hsplit := splitFrontmatter_envelope h ('\n' :: rest)
  have hbody : bodyBehind ([] ++ '\n' :: rest) = rest := bodyBehind_append List.not_mem_nil rest
  constructor
  · rw [parseNote, hsplit]
    simp only []
    split
    next => exact hbody
    next => exact hbody
  · intro f hparse
    rw [parseNote_of_split hsplit hparse]

/-! ## Printing and reading back -/

/-- A frontmatter with another value for its last key. -/
def Frontmatter.mapLast (tail : Value → Value) : Frontmatter → Frontmatter
  | [] => []
  | [e] => [(e.1, tail e.2)]
  | e :: e' :: rest => e :: Frontmatter.mapLast tail (e' :: rest)

/-- What is known of the YAML library. A printed block is closed by the first `---` behind it; a mapping has no key
twice, and is read back as it was printed, but that a note's block is printed without the white space at its end:
`tail` is what becomes of the last value, a block scalar perhaps, when that is gone. -/
structure Yaml.Lawful (yaml : Yaml) (tail : Value → Value) : Prop where
  closed : ∀ v, Closed (trimEnd (yaml.stringify v))
  keys : ∀ t f, yaml.parse t = some (.map f) → (f.map (·.1)).Nodup
  reads : ∀ f : Frontmatter, (f.map (·.1)).Nodup →
    yaml.parse (trimEnd (yaml.stringify (.map f)) ++ ['\n']) = some (.map (f.mapLast tail))

variable {tail : Value → Value}

theorem Frontmatter.mapLast_keys (tail : Value → Value) (f : Frontmatter) : (f.mapLast tail).map (·.1) = f.map (·.1) := by
  induction f using Frontmatter.mapLast.induct with
  | case1 => rfl
  | case2 e => rfl
  | case3 e e' rest ih => rw [Frontmatter.mapLast, List.map_cons, List.map_cons, ih]

/-- A last value that survives leaves the frontmatter as it is. -/
theorem Frontmatter.mapLast_eq_self {f : Frontmatter} (h : ∀ e ∈ f.getLast?, tail e.2 = e.2) : f.mapLast tail = f := by
  induction f using Frontmatter.mapLast.induct with
  | case1 => rfl
  | case2 e => rw [Frontmatter.mapLast, h e rfl]
  | case3 e e' rest ih => rw [Frontmatter.mapLast, ih fun d hd => h d (by rwa [List.getLast?_cons_cons])]

theorem Frontmatter.get_cons (e : Text × Value) (f : Frontmatter) (key : Text) :
    Frontmatter.get (e :: f) key = if e.1 = key then some e.2 else Frontmatter.get f key := by
  unfold Frontmatter.get
  by_cases h : e.1 = key
  · rw [List.find?_cons_of_pos (by simpa using h), if_pos h]
    rfl
  · rw [List.find?_cons_of_neg (by simpa using h), if_neg h]

/-- The other keys keep their values. -/
theorem Frontmatter.get_mapLast {f : Frontmatter} {key : Text} (h : ∀ e ∈ f.getLast?, e.1 ≠ key) :
    (f.mapLast tail).get key = f.get key := by
  induction f using Frontmatter.mapLast.induct with
  | case1 => rfl
  | case2 e => rw [Frontmatter.mapLast, Frontmatter.get_cons, Frontmatter.get_cons, if_neg (h e rfl), if_neg (h e rfl)]
  | case3 e e' rest ih =>
    rw [Frontmatter.mapLast, Frontmatter.get_cons, Frontmatter.get_cons,
      ih fun d hd => h d (by rwa [List.getLast?_cons_cons])]

theorem serializeValue_envelope (value : Value) (body : Text) : serializeValue yaml value body =
    "---\n".toList ++ trimEnd (yaml.stringify value) ++ closing ++ '\n' :: '\n' :: body.dropWhile (· = '\n') := by
  unfold serializeValue closing
  simp only [List.append_assoc]
  rfl

theorem parseNote_serialized (laws : yaml.Lawful tail) {f : Frontmatter} (hkeys : (f.map (·.1)).Nodup) (rest : Text) :
    parseNote yaml ("---\n".toList ++ trimEnd (yaml.stringify (.map f)) ++ closing ++ '\n' :: rest) =
      { frontmatter := some (f.mapLast tail), body := rest } := by
  obtain ⟨hbody, hdata⟩ := @parseNote_envelope yaml _ (laws.closed (.map f)) rest
  have hfrontmatter := hdata _ (laws.reads f hkeys)
  cases hnote : parseNote yaml _ with
  | mk frontmatter body =>
    rw [hnote] at hbody hfrontmatter
    rw [ParsedNote.mk.injEq]
    exact ⟨hfrontmatter, hbody⟩

end Zenod.Vault
