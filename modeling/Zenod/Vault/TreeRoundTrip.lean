/-
`Tree.md` read back as it was written.

What a line of it can add to the parse is said once (`read_cases`). From it,
nothing broken by a line terminator is ever read, so that roots that come
back stand on one line each; then each line gives its node, and the node is
the root exactly when the root is legible (`fields_eq_iff`).
-/
import Mathlib.Data.List.SplitBy
import Zenod.Vault.TreeFile

namespace Zenod.Vault

open Text

/-! ## What a line adds -/

/-- A summary without the id at its end. -/
def shownSummary (whole : Text) : Text := (nodeId whole).elim whole fun found => trim found.2

/-- A node that the fields of a line give. -/
structure NodeOf (fields : List Text) (node : TreeNode) (pageRaw : Text) (rest : List Text) : Prop where
  fields : fields.map trim = node.name :: node.kind.text :: pageRaw :: rest
  path : node.path = pagePathFromRef pageRaw
  summary : node.summary = shownSummary (trim ((" | ".toList).intercalate rest))
  id : node.id = (nodeId (trim ((" | ".toList).intercalate rest))).map (·.1)
  named : node.name ≠ [] ∧ node.path ≠ [] ∧ node.summary ≠ []

theorem kind_of_text {kindRaw : Text} {kind : MemoryKind} (h : memoryKinds.find? (·.text = kindRaw) = some kind) :
    kind.text = kindRaw := by
  have hfound := List.find?_some h
  simpa using hfound

variable {lib : Library}

/-- **What the fields of a line add**: a problem, a node of the group, or a node with a problem. -/
theorem nodeFields_cases (s : TreeState) (line : Nat) (fields : List Text) :
    s.nodeFields line fields = s ∧ fields.length < 3 ∨
    (∃ rule message, s.nodeFields line fields = s.problem line rule message) ∨
    ∃ node pageRaw rest, NodeOf fields node pageRaw rest ∧
      ((s.nodeFields line fields = s.node node ∧ s.group = some node.kind) ∨
        ∃ rule message, s.nodeFields line fields = (s.problem line rule message).node node) := by
  unfold TreeState.nodeFields
  split
  next name kindRaw pageRaw rest hfields =>
    right
    cases hkind : memoryKinds.find? (·.text = kindRaw) with
    | none => exact Or.inl ⟨_, _, rfl⟩
    | some kind =>
      have hkindText := kind_of_text hkind
      cases hid : nodeId (trim ((" | ".toList).intercalate rest)) with
      | none =>
        simp only [hid]
        split
        next => exact Or.inl ⟨_, _, rfl⟩
        next hnamed =>
          rw [not_or, not_or] at hnamed
          refine Or.inr ⟨⟨name, none, kind, pagePathFromRef pageRaw, trim ((" | ".toList).intercalate rest), line⟩, pageRaw, rest,
            ⟨hkindText ▸ hfields, rfl, by rw [shownSummary, hid]; rfl, by rw [hid]; rfl, hnamed⟩, ?_⟩
          cases hgroup : s.group with
          | none => exact Or.inr ⟨_, _, rfl⟩
          | some group =>
            simp only []
            split
            next heq => exact Or.inl ⟨rfl, by rw [heq]⟩
            next => exact Or.inr ⟨_, _, rfl⟩
      | some found =>
        simp only [hid]
        split
        next => exact Or.inl ⟨_, _, rfl⟩
        next hnamed =>
          rw [not_or, not_or] at hnamed
          refine Or.inr ⟨⟨name, some found.1, kind, pagePathFromRef pageRaw, trim found.2, line⟩, pageRaw, rest,
            ⟨hkindText ▸ hfields, rfl, by rw [shownSummary, hid]; rfl, by rw [hid]; rfl, hnamed⟩, ?_⟩
          cases hgroup : s.group with
          | none => exact Or.inr ⟨_, _, rfl⟩
          | some group =>
            simp only []
            split
            next heq => exact Or.inl ⟨rfl, by rw [heq]⟩
            next => exact Or.inr ⟨_, _, rfl⟩
  next hfields =>
    left
    refine ⟨rfl, ?_⟩
    rw [← List.length_map (f := trim)]
    rcases hmap : fields.map trim with _ | ⟨a, _ | ⟨b, _ | ⟨c, rest⟩⟩⟩
    · simp
    · simp
    · simp
    · exact absurd hmap (hfields a b c rest)

/-- A node of the group that is being read is added without a problem. -/
theorem nodeFields_of {s : TreeState} {fields : List Text} {node : TreeNode} {pageRaw : Text} {rest : List Text}
    (h : NodeOf fields node pageRaw rest) (hgroup : s.group = some node.kind) (line : Nat) :
    s.nodeFields line fields = s.node { node with line := line } := by
  have hfind : memoryKinds.find? (·.text = node.kind.text) = some node.kind := by
    cases node.kind <;> decide
  have hnamed : ¬(node.name = [] ∨ pagePathFromRef pageRaw = [] ∨
      shownSummary (trim ((" | ".toList).intercalate rest)) = []) := by
    rw [← h.path, ← h.summary, not_or, not_or]
    exact h.named
  have hnode : node = ⟨node.name, (nodeId (trim ((" | ".toList).intercalate rest))).map (·.1), node.kind, pagePathFromRef pageRaw,
      shownSummary (trim ((" | ".toList).intercalate rest)), node.line⟩ := by
    rw [← h.path, ← h.summary, ← h.id]
  unfold TreeState.nodeFields
  rw [h.fields]
  cases hid : nodeId (trim ((" | ".toList).intercalate rest)) with
  | none =>
    rw [shownSummary, hid, Option.elim_none] at hnamed hnode
    simp only [hid, hfind, hgroup, if_neg hnamed, reduceIte]
    rw [hnode]
  | some found =>
    rw [shownSummary, hid, Option.elim_some] at hnamed hnode
    simp only [hid, hfind, hgroup, if_neg hnamed, reduceIte]
    rw [hnode]

/-- **What a line adds**: a heading, nothing, a problem, or the node of a node line. -/
theorem read_cases (s : TreeState) (line : Nat) (raw : Text) :
    (∃ title, s.read lib line raw = s.heading lib line title) ∨ s.read lib line raw = s ∨
    (∃ rule message, s.read lib line raw = s.problem line rule message) ∨
    ∃ content node pageRaw rest, nodeLine (withoutSuffix ['\r'] raw) = some content ∧
      NodeOf (pieces " | ".toList content) node pageRaw rest ∧
      ((s.read lib line raw = s.node node ∧ s.group = some node.kind) ∨
        ∃ rule message, s.read lib line raw = (s.problem line rule message).node node) := by
  unfold TreeState.read
  simp only []
  split
  next => exact Or.inl ⟨_, rfl⟩
  next =>
    right
    split
    next => exact Or.inr (Or.inl ⟨_, _, rfl⟩)
    next =>
      split
      next => exact Or.inl rfl
      next content hcontent =>
        split
        next => exact Or.inr (Or.inl ⟨_, _, rfl⟩)
        next =>
          rcases nodeFields_cases s line (pieces " | ".toList content) with h | h | ⟨node, pageRaw, rest, hof, h⟩
          · exact Or.inl h.1
          · exact Or.inr (Or.inl h)
          · exact Or.inr (Or.inr ⟨content, node, pageRaw, rest, hcontent, hof, h⟩)

@[simp] theorem problem_problems (s : TreeState) (line : Nat) (rule message : Text) :
    (s.problem line rule message).tree.problems = s.tree.problems ++ [⟨line, rule, message⟩] := rfl

@[simp] theorem problem_nodes (s : TreeState) (line : Nat) (rule message : Text) :
    (s.problem line rule message).tree.nodes = s.tree.nodes := rfl

@[simp] theorem node_problems (s : TreeState) (node : TreeNode) : (s.node node).tree.problems = s.tree.problems := rfl

@[simp] theorem node_nodes (s : TreeState) (node : TreeNode) : (s.node node).tree.nodes = s.tree.nodes ++ [node] := rfl

@[simp] theorem node_group (s : TreeState) (node : TreeNode) : (s.node node).group = s.group := rfl

theorem heading_cases (s : TreeState) (line : Nat) (title : Text) :
    (s.heading lib line title).tree.nodes = s.tree.nodes ∧ s.tree.problems <+: (s.heading lib line title).tree.problems := by
  simp only [TreeState.heading]
  split
  · exact ⟨rfl, List.prefix_append _ _⟩
  · exact ⟨rfl, List.prefix_refl _⟩

/-- Problems are never taken back. -/
theorem problems_kept (s : TreeState) (line : Nat) (raw : Text) :
    s.tree.problems <+: (s.read lib line raw).tree.problems := by
  rcases @read_cases lib s line raw with ⟨title, h⟩ | h | ⟨rule, message, h⟩ | ⟨_, node, _, _, -, -, ⟨h, -⟩ | ⟨rule, message, h⟩⟩
  · exact h ▸ (heading_cases s line title).2
  · rw [h]
  · exact h ▸ List.prefix_append _ _
  · exact h ▸ List.prefix_refl _
  · exact h ▸ List.prefix_append _ _

/-! ## Nothing broken is read -/

theorem Unbroken.mono {s t : Text} (h : Unbroken t) (hsub : ∀ c ∈ s, c ∈ t) : Unbroken s := fun c hc => h c (hsub c hc)

theorem Unbroken.append {s t : Text} (hs : Unbroken s) (ht : Unbroken t) : Unbroken (s ++ t) := fun c hc =>
  (List.mem_append.1 hc).elim (hs c) (ht c)

theorem unbroken_of_all {t : Text} (h : (t.all fun c => decide (isLineTerminator c = false)) = true) : Unbroken t :=
  forall_of_all h

theorem unbroken_nodeLine {text content : Text} (h : nodeLine text = some content) : Unbroken content := by
  simp only [nodeLine, Option.ite_none_right_eq_some, Option.some.injEq] at h
  obtain ⟨⟨-, -, hall⟩, rfl⟩ := h
  intro c hc
  have hchar := List.all_eq_true.1 hall c hc
  simpa using hchar

theorem mem_ite {p : Prop} [Decidable p] {s t : Text} {c : Char} (h : c ∈ if p then s else t) : c ∈ s ∨ c ∈ t := by
  split at h
  · exact Or.inl h
  · exact Or.inr h

theorem mem_asPath {t : Text} {c : Char} (h : c ∈ asPath t) : c ∈ ".md".toList ∨ c ∈ slashed t := by
  have hstart : ∀ {c}, c ∈ (if startsWith (slashed t) "./".toList then (slashed t).drop 2
      else if startsWith (slashed t) "/".toList then (slashed t).drop 1 else slashed t) → c ∈ slashed t := fun hc =>
    (mem_ite hc).elim List.mem_of_mem_drop fun hc => (mem_ite hc).elim List.mem_of_mem_drop id
  rcases mem_ite h with h | h
  · cases h
  · rcases mem_ite h with h | h
    · exact Or.inr (hstart h)
    · exact (List.mem_append.1 h).symm.imp_right hstart

theorem mem_unquoted {t : Text} {c : Char} (h : c ∈ unquoted t) : c ∈ t := by
  have hfront : ∀ {c}, c ∈ (if t.head?.any isQuote then t.tail else t) → c ∈ t := fun hc =>
    (mem_ite hc).elim List.mem_of_mem_tail id
  exact (mem_ite h).elim (fun h => hfront (List.mem_of_mem_dropLast h)) hfront

theorem mem_of_wikiName {clean name : Text} (h : wikiName clean = some name) : ∀ c ∈ name, c ∈ clean := by
  simp only [wikiName, Option.ite_none_right_eq_some, Option.some.injEq] at h
  obtain ⟨-, -, rfl⟩ := h
  exact fun c hc => List.mem_of_mem_drop ((List.takeWhile_prefix _).subset hc)

theorem Unbroken.pagePathFromRef {t : Text} (h : Unbroken t) : Unbroken (pagePathFromRef t) := by
  have hclean : Unbroken (unquoted (trim t)) := h.mono fun c hc => trim_subset (mem_unquoted hc)
  have hname : Unbroken ((wikiName (unquoted (trim t))).elim (unquoted (trim t)) trim) := by
    cases hname : wikiName (unquoted (trim t)) with
    | none => exact hclean
    | some name => exact hclean.mono fun c hc => mem_of_wikiName hname c (trim_subset hc)
  rw [pagePathFromRef_eq]
  intro c hc
  rcases mem_asPath hc with hc | hc
  · exact @unbroken_of_all ".md".toList (by decide) c hc
  · rcases (mem_slashed hc).2 with rfl | hc
    · decide
    · exact hname c hc

theorem mem_shownSummary {whole : Text} {c : Char} (h : c ∈ shownSummary whole) : c ∈ whole := by
  unfold shownSummary at h
  cases hid : nodeId whole with
  | none => rwa [hid] at h
  | some found =>
    rw [hid] at h
    simp only [nodeId, Option.ite_none_right_eq_some, Option.some.injEq] at hid
    obtain ⟨-, rfl⟩ := hid
    have hbefore := (List.rdropWhile_prefix _ _).subset (trim_subset h)
    exact List.mem_of_mem_take (List.mem_of_mem_dropLast hbefore)

/-- **The fields of a node stand on one line.** -/
theorem NodeOf.unbroken {fields : List Text} {node : TreeNode} {pageRaw : Text} {rest : List Text}
    (h : NodeOf fields node pageRaw rest) (hfields : ∀ f ∈ fields, Unbroken f) :
    Unbroken node.name ∧ Unbroken node.path ∧ Unbroken node.summary := by
  have htrim : ∀ t ∈ node.name :: node.kind.text :: pageRaw :: rest, Unbroken t := by
    intro t ht
    rw [← h.fields] at ht
    obtain ⟨f, hf, rfl⟩ := List.mem_map.1 ht
    exact (hfields f hf).mono fun c hc => trim_subset hc
  refine ⟨htrim _ List.mem_cons_self, ?_, ?_⟩
  · rw [h.path]
    exact Unbroken.pagePathFromRef (htrim _ (by simp))
  · rw [h.summary]
    intro c hc
    rcases mem_intercalate (trim_subset (mem_shownSummary hc)) with hc | ⟨t, ht, hc⟩
    · exact @unbroken_of_all " | ".toList (by decide) c hc
    · exact htrim t (by simp [ht]) c hc

/-! ## The lines of a file -/

/-- Numbered lines, read one behind another. -/
def readAll (lib : Library) (offset : Nat) (ls : List (Text × Nat)) (s : TreeState) : TreeState :=
  ls.foldl (fun s l => s.read lib (l.2 + 1 + offset) l.1) s

variable {offset : Nat}

theorem readAll_append (ls ms : List (Text × Nat)) (s : TreeState) :
    readAll lib offset (ls ++ ms) s = readAll lib offset ms (readAll lib offset ls s) := List.foldl_append

theorem readAll_problems (ls : List (Text × Nat)) (s : TreeState) :
    s.tree.problems <+: (readAll lib offset ls s).tree.problems := by
  induction ls generalizing s with
  | nil => exact List.prefix_refl _
  | cons l ls ih => exact (problems_kept s _ l.1).trans (ih _)

def NodeUnbroken (node : TreeNode) : Prop := Unbroken node.name ∧ Unbroken node.path ∧ Unbroken node.summary

theorem read_unbroken {s : TreeState} (h : ∀ node ∈ s.tree.nodes, NodeUnbroken node) (line : Nat) (raw : Text) :
    ∀ node ∈ (s.read lib line raw).tree.nodes, NodeUnbroken node := by
  have hadd : ∀ content node pageRaw rest, nodeLine (withoutSuffix ['\r'] raw) = some content →
      NodeOf (pieces " | ".toList content) node pageRaw rest → ∀ m ∈ s.tree.nodes ++ [node], NodeUnbroken m := by
    intro content node pageRaw rest hcontent hof m hm
    rcases List.mem_append.1 hm with hm | hm
    · exact h m hm
    · rw [List.mem_singleton.1 hm]
      refine hof.unbroken fun f hf => ?_
      exact (unbroken_nodeLine hcontent).mono (mem_of_mem_pieces (by decide) hf)
  rcases @read_cases lib s line raw with ⟨title, hread⟩ | hread | ⟨rule, message, hread⟩ |
    ⟨content, node, _, _, hcontent, hof, ⟨hread, -⟩ | ⟨rule, message, hread⟩⟩ <;> rw [hread]
  · rw [(heading_cases s line title).1]
    exact h
  · exact h
  · exact h
  · exact hadd content node _ _ hcontent hof
  · exact hadd content node _ _ hcontent hof

theorem readAll_unbroken (ls : List (Text × Nat)) {s : TreeState} (h : ∀ node ∈ s.tree.nodes, NodeUnbroken node) :
    ∀ node ∈ (readAll lib offset ls s).tree.nodes, NodeUnbroken node := by
  induction ls generalizing s with
  | nil => exact h
  | cons l ls ih => exact ih (read_unbroken h _ l.1)

/-- **No text of a tree that is read is broken.** -/
theorem parseTree_unbroken (raw : Text) : ∀ node ∈ (parseTree lib raw).nodes, NodeUnbroken node :=
  readAll_unbroken _ fun _ hnode => (by cases hnode)

/-! ## The line of a root -/

def nodeTail (root : DiscoveredRoot) : Text := oneLine root.summary ++ (root.id.map (" ^".toList ++ ·)).getD []

/-- The line of a root without its bullet. -/
def nodeContent (root : DiscoveredRoot) : Text :=
  root.name ++ " | ".toList ++ (root.kind.text ++ " | ".toList ++ (parentRef root.path ++ " | ".toList ++ nodeTail root))

theorem formatTreeNode_eq (root : DiscoveredRoot) : formatTreeNode root = "- ".toList ++ nodeContent root := by
  unfold formatTreeNode nodeContent nodeTail
  simp only [List.append_assoc]

def RootUnbroken (root : DiscoveredRoot) : Prop := Unbroken root.name ∧ Unbroken root.path ∧ Unbroken root.summary

variable {root : DiscoveredRoot}

theorem oneLine_eq {t : Text} (h : '\n' ∉ t) : oneLine t = t := by
  have hrun : ∀ run ∈ t.splitBy fun a b => Js.isSpace a == Js.isSpace b, (if '\n' ∈ run then [' '] else run) = id run := by
    intro run hrun
    refine if_neg fun hin => h ?_
    rw [← List.flatten_splitBy (fun a b => Js.isSpace a == Js.isSpace b) t]
    exact List.mem_flatten.2 ⟨run, hrun, hin⟩
  rw [oneLine, List.flatMap_def, List.map_congr_left hrun, List.map_id, List.flatten_splitBy]

theorem Unbroken.newline {t : Text} (h : Unbroken t) : '\n' ∉ t := fun hin => absurd (h _ hin) (by decide)

theorem unbroken_rootId {id : Text} (h : isRootId id = true) : Unbroken id := by
  intro c hc
  rw [isRootId, Bool.and_eq_true] at h
  have hchar := List.all_eq_true.1 h.2 c hc
  cases hbreak : isLineTerminator c with
  | false => rfl
  | true =>
    exfalso
    simp only [isLineTerminator, Bool.or_eq_true, beq_iff_eq] at hbreak
    rcases hbreak with ((hbreak | hbreak) | hbreak) | hbreak <;> rw [Js.eq_ofNat hbreak] at hchar <;> exact absurd hchar (by decide)

theorem RootUnbroken.content (h : RootUnbroken root) : Unbroken (nodeContent root) := by
  have hbar : Unbroken " | ".toList := unbroken_of_all (by decide)
  have hkind : Unbroken root.kind.text := by
    cases root.kind <;> exact unbroken_of_all (by decide)
  have hpage : Unbroken (parentRef root.path) := by
    refine ((unbroken_of_all (by decide)).append (h.2.1.mono (pageName_start _).subset)).append (unbroken_of_all (by decide))
  have htail : Unbroken (nodeTail root) := by
    rw [nodeTail, oneLine_eq h.2.2.newline]
    refine h.2.2.append ?_
    cases hid : root.id with
    | none => exact fun c hc => (by cases hc)
    | some id => exact (unbroken_of_all (by decide)).append (unbroken_rootId (root.idOk id hid))
  exact (h.1.append hbar).append ((hkind.append hbar).append ((hpage.append hbar).append htail))

theorem read_formatTreeNode (h : RootUnbroken root) (s : TreeState) (line : Nat) :
    s.read lib line (formatTreeNode root) =
      if (pieces " | ".toList (nodeContent root)).length < 4 then
        s.problem line "tree/node-format".toList
          "node line must be \x60- name | working|long-term | [[page]] | summary\x60".toList
      else s.nodeFields line (pieces " | ".toList (nodeContent root)) := by
  have hcontent := h.content
  have hne : nodeContent root ≠ [] := by
    rw [nodeContent]
    simp
  have hend : withoutSuffix ['\r'] (formatTreeNode root) = formatTreeNode root := by
    rw [withoutSuffix, if_neg]
    intro hsuffix
    have hin : '\r' ∈ formatTreeNode root := (List.isSuffixOf_iff_suffix.1 hsuffix).subset List.mem_cons_self
    rw [formatTreeNode_eq] at hin
    exact absurd (((unbroken_of_all (by decide)).append hcontent : Unbroken ("- ".toList ++ nodeContent root)) _ hin) (by decide)
  have hheading : headingTitle (formatTreeNode root) = none := by
    rw [formatTreeNode_eq]
    rfl
  have hnested : isNestedLine (formatTreeNode root) = false := by
    rw [formatTreeNode_eq]
    have hself : ("- ".toList ++ nodeContent root).dropWhile Js.isSpace = "- ".toList ++ nodeContent root := rfl
    rw [isNestedLine]
    simp only [hself, Nat.lt_irrefl, decide_false, Bool.false_and]
  have hnode : nodeLine (formatTreeNode root) = some (nodeContent root) := by
    rw [formatTreeNode_eq]
    refine if_pos ⟨startsWith_iff.2 (List.prefix_append _ _), hne, ?_⟩
    rw [List.all_eq_true]
    intro c hc
    have hchar := hcontent c hc
    simpa using hchar
  simp only [TreeState.read, hend, hheading, hnested, hnode]
  rfl

/-! ## The fields of a root -/

theorem infix_bar_iff (a : Text) : " | ".toList <:+: a ++ " |".toList ↔ " | ".toList <:+: a ∨ " |".toList <:+ a := by
  have hshape : a ++ " |".toList = a ++ [' '] ++ ['|'] := by rw [List.append_assoc]; rfl
  have hlast : ¬" | ".toList <:+ a ++ [' '] ++ ['|'] := by
    intro h
    have hone : " ".toList <:+ a ++ [' '] ++ ['|'] := List.IsSuffix.trans ⟨" |".toList, rfl⟩ h
    exact absurd (List.suffix_of_suffix_length_le hone (List.suffix_append _ ['|']) (by decide)) (by decide)
  rw [hshape, List.infix_concat_iff, or_iff_right hlast, List.infix_concat_iff]
  constructor
  · rintro (h | h)
    · exact Or.inr ((@List.suffix_append_inj_of_length_eq _ " |".toList a [' '] [' '] rfl).1 h).1
    · exact Or.inl h
  · rintro (h | ⟨t, rfl⟩)
    · exact Or.inr h
    · exact Or.inl ⟨t, by rw [List.append_assoc]; rfl⟩

theorem pieces_bar {a : Text} (h : ¬" | ".toList <:+: a ∧ ¬" |".toList <:+ a) (b : Text) :
    pieces " | ".toList (a ++ " | ".toList ++ b) = a :: pieces " | ".toList b := by
  refine pieces_of_cut (by decide) ((cut_eq_iff (by decide) a b).2 ?_)
  show ¬" | ".toList <:+: a ++ " |".toList
  rw [infix_bar_iff, not_or]
  exact h

theorem no_bar {a : Text} (h : '|' ∉ a) : ¬" | ".toList <:+: a ∧ ¬" |".toList <:+ a :=
  ⟨fun hin => h (hin.subset (by decide)), fun hin => h (hin.subset (by decide))⟩

theorem bar_not_mem_kind (kind : MemoryKind) : '|' ∉ kind.text := by
  cases kind <;> decide

theorem bar_not_mem_oneLine {t : Text} (h : '|' ∉ t) (hline : Unbroken t) : '|' ∉ oneLine t := by
  rw [oneLine_eq hline.newline]
  exact h

theorem bar_not_mem_tail (h : RootUnbroken root) : '|' ∉ nodeTail root := by
  intro hin
  rcases List.mem_append.1 hin with hin | hin
  · exact bar_not_mem_oneLine root.noBar h.2.2 hin
  · cases hid : root.id with
    | none =>
      rw [hid] at hin
      cases hin
    | some id =>
      rw [hid] at hin
      have hok := root.idOk id hid
      rw [isRootId, Bool.and_eq_true] at hok
      exact absurd (List.all_eq_true.1 hok.2 _ ((List.mem_append.1 hin).resolve_left (by decide))) (by decide)

theorem pieces_page (hpage : '|' ∉ pageName root.path) (h : RootUnbroken root) :
    pieces " | ".toList (root.kind.text ++ " | ".toList ++ (parentRef root.path ++ " | ".toList ++ nodeTail root)) =
      [root.kind.text, parentRef root.path, nodeTail root] := by
  have href : '|' ∉ parentRef root.path := by
    simp only [parentRef, List.mem_append, not_or]
    exact ⟨⟨by decide, hpage⟩, by decide⟩
  rw [pieces_bar (no_bar (bar_not_mem_kind _)), pieces_bar (no_bar href),
    pieces_eq_singleton fun hin => bar_not_mem_tail h (hin.subset (by decide))]

theorem trim_parentRef (path : Text) : trim (parentRef path) = parentRef path := by
  refine Tight.trim_eq ⟨fun c hc => ?_, fun c hc => ?_⟩
  · obtain rfl : '[' = c := Option.some.inj hc
    decide
  · rw [parentRef, List.getLast?_append_of_ne_nil _ (by decide)] at hc
    obtain rfl : ']' = c := Option.some.inj hc
    decide

def isIdChar (c : Char) : Bool := isAlphanumeric c || c == '-'

theorem isRootId_parts {id : Text} (h : isRootId id = true) :
    (∃ c ∈ id.head?, isAlphanumeric c = true) ∧ ∀ c ∈ id, isIdChar c = true := by
  rw [isRootId, Bool.and_eq_true, Option.any_eq_true] at h
  exact ⟨h.1, List.all_eq_true.1 h.2⟩

/-- **The id at the end of a summary is read.** -/
theorem nodeId_append {id : Text} (h : isRootId id = true) (t : Text) :
    nodeId (t ++ " ^".toList ++ id) = some (id, trimEnd t) := by
  obtain ⟨hhead, hall⟩ := isRootId_parts h
  have hid : (t ++ " ^".toList ++ id).rtakeWhile (fun c => isAlphanumeric c || c == '-') = id := by
    have hreverse : (t ++ " ^".toList ++ id).reverse = id.reverse ++ '^' :: ' ' :: t.reverse := by simp
    have hrun : ∀ c ∈ id.reverse, (isAlphanumeric c || c == '-') = true := fun c hc => hall c (List.mem_reverse.1 hc)
    rw [List.rtakeWhile, hreverse, List.takeWhile_append_of_pos hrun,
      List.takeWhile_cons_of_neg (by decide), List.append_nil, List.reverse_reverse]
  have hbefore : (t ++ " ^".toList ++ id).rdrop id.length = t ++ [' '] ++ ['^'] := by
    rw [List.rdrop_append_length, List.append_assoc]
    rfl
  have hspace : trimEnd (t ++ [' ']) = trimEnd t := List.rdropWhile_concat_pos _ _ _ (by decide)
  simp only [nodeId, hid, hbefore, List.dropLast_concat, hspace]
  rw [if_pos]
  exact ⟨(Option.any_eq_true _ _).2 hhead, by simp, by rw [List.getLast?_concat]; rfl⟩

theorem PlainField.isTight {t : Text} (h : PlainField t) : Tight t := h.tight ▸ tight_trim t

theorem trimEnd_of_tight {t : Text} (h : Tight t) : trimEnd t = t := by
  rw [trimEnd, List.rdropWhile_eq_self_iff]
  intro hne
  rw [h.2 _ (List.getLast?_eq_some_getLast hne)]
  exact Bool.false_ne_true

theorem not_space_of_isIdChar {c : Char} (h : isIdChar c = true) : Js.isSpace c = false := by
  rcases Bool.or_eq_true _ _ ▸ h with h | h
  · rcases Bool.or_eq_true _ _ ▸ h with h | h
    · exact not_space_of_isTopChar (by rw [isTopChar, h]; rfl)
    · simp only [Char.isDigit, Bool.and_eq_true, decide_eq_true_eq, ge_iff_le, UInt32.le_iff_toNat_le] at h
      have hrange : 0x30 ≤ c.toNat ∧ c.toNat ≤ 0x39 := h
      simp only [Js.isSpace, Bool.or_eq_false_iff, Bool.and_eq_false_iff, decide_eq_false_iff_not, beq_eq_false_iff_ne]
      omega
  · rw [beq_iff_eq] at h
    rw [h]
    decide

/-- The summary and the id of a root come back. -/
theorem shown_tail (hsummary : PlainField root.summary) (hid : root.id = none → nodeId root.summary = none) :
    trim (nodeTail root) = nodeTail root ∧ shownSummary (nodeTail root) = root.summary ∧
      (nodeId (nodeTail root)).map (·.1) = root.id := by
  have htight := hsummary.isTight
  cases hroot : root.id with
  | none =>
    have htail : nodeTail root = root.summary := by
      rw [nodeTail, hroot, oneLine_eq hsummary.unbroken.newline]
      exact List.append_nil _
    rw [htail, shownSummary, hid hroot]
    exact ⟨hsummary.tight, rfl, rfl⟩
  | some id =>
    have hok := root.idOk id hroot
    obtain ⟨⟨c, hc, -⟩, hall⟩ := isRootId_parts hok
    have hne : id ≠ [] := by
      rintro rfl
      cases hc
    have htail : nodeTail root = root.summary ++ " ^".toList ++ id := by
      rw [nodeTail, hroot, oneLine_eq hsummary.unbroken.newline, List.append_assoc]
      rfl
    have hidTight : Tight id := tight_of_forall fun d hd => not_space_of_isIdChar (hall d hd)
    rw [htail, shownSummary, nodeId_append hok, Option.elim_some, trimEnd_of_tight htight]
    exact ⟨(htight.append hidTight hsummary.nonempty hne _).trim_eq, hsummary.tight, rfl⟩

/-- The node a root comes back as. -/
def DiscoveredRoot.node (root : DiscoveredRoot) (line : Nat) : TreeNode :=
  ⟨root.name, root.id, root.kind, root.path, root.summary, line⟩

/-- **A legible root is what its line says.** -/
theorem nodeOf_legible (h : RootUnbroken root) (hlegible : Legible root) (line : Nat) :
    NodeOf (pieces " | ".toList (nodeContent root)) (root.node line) (parentRef root.path) [nodeTail root] := by
  have hbar : '|' ∉ pageName root.path := fun hin => hlegible.path.marks _ hin (by decide)
  obtain ⟨htrim, hshown, hid⟩ := shown_tail hlegible.summary hlegible.summaryId
  have hkind : trim root.kind.text = root.kind.text := by
    cases root.kind <;> decide
  have hpath : pagePathFromRef (parentRef root.path) = root.path := (pagePathFromRef_eq_self root.isPage).2 hlegible.path
  have hrest : trim ((" | ".toList).intercalate [nodeTail root]) = nodeTail root := by
    rw [List.intercalate_singleton, htrim]
  have hne : root.path ≠ [] := by
    obtain ⟨top, rest, hne, -, hpath⟩ := exists_top root.isPage
    rw [hpath, List.append_assoc]
    exact List.append_ne_nil_of_left_ne_nil hne _
  refine ⟨?_, hpath.symm, ?_, ?_, hlegible.name.nonempty, hne, hlegible.summary.nonempty⟩
  · rw [nodeContent, pieces_bar hlegible.nameMark, pieces_page hbar h]
    simp only [List.map_cons, List.map_nil, hlegible.name.tight, hkind, trim_parentRef, htrim]
    rfl
  · rw [hrest, hshown]
    rfl
  · rw [hrest, hid]
    rfl

theorem brackets_trim {t : Text} (h : "[[".toList <+: t) : "[[".toList <+: trim t := by
  obtain ⟨rest, rfl⟩ := h
  have htrim : trim ("[[".toList ++ rest) = ['['] ++ '[' :: trimEnd rest := trimEnd_append_cons (by decide) ['['] rest
  rw [htrim]
  exact ⟨trimEnd rest, rfl⟩

/-- A text in brackets that is read as a page's path leaves no mark in it. -/
theorem marks_of_ref {path ref : Text} (hpage : isTreePage path = true) (hstart : "[[".toList <+: trim ref)
    (heq : pagePathFromRef ref = path) : ∀ c ∈ pageName path, c ≠ ']' ∧ c ≠ '|' ∧ c ≠ '#' := by
  obtain ⟨top, rest, hne, htop, hname, hpath⟩ := top_of_isPage hpage
  obtain ⟨clean, hclean⟩ : ∃ clean, unquoted (trim ref) = '[' :: clean := by
    obtain ⟨v, hv⟩ := hstart
    rw [← hv]
    show ∃ clean, (if ('[' :: '[' :: v).getLast?.any isQuote then ('[' :: '[' :: v).dropLast else '[' :: '[' :: v) = '[' :: clean
    split
    · exact ⟨_, rfl⟩
    · exact ⟨_, rfl⟩
  rw [pagePathFromRef_eq, hclean] at heq
  cases hwiki : wikiName ('[' :: clean) with
  | none =>
    rw [hwiki, Option.elim_none, asPath_eq ⟨'[', rfl, by decide, by decide, by decide⟩] at heq
    have hread : pageName path = pageName (slashed ('[' :: clean)) := by rw [← heq, pageName_append]
    obtain ⟨c, top, rfl⟩ := List.exists_cons_of_ne_nil hne
    have hprefix := pageName_start (slashed ('[' :: clean))
    rw [← hread, hname] at hprefix
    obtain rfl : c = '[' := (List.cons_prefix_cons.1 hprefix).1
    exact absurd (htop '[' List.mem_cons_self) (by decide)
  | some name =>
    rw [hwiki, Option.elim_some] at heq
    intro c hc
    have hmem : c ∈ asPath (trim name) := by
      rw [heq, hpath]
      exact List.mem_append_left _ hc
    rcases mem_asPath hmem with hc | hc
    · have hsuffix : ∀ c ∈ ".md".toList, c ≠ ']' ∧ c ≠ '|' ∧ c ≠ '#' := forall_of_all (by decide)
      exact hsuffix c hc
    · rcases (mem_slashed hc).2 with rfl | hc
      · decide
      · exact not_mark_of_wikiName hwiki c (trim_subset hc)

theorem trim_shownSummary (t : Text) : trim (shownSummary (trim t)) = shownSummary (trim t) := by
  unfold shownSummary
  cases nodeId (trim t) with
  | none => exact Js.trimChars_idem t
  | some found => exact Js.trimChars_idem found.2

/-- **A name that is read back whole** is tight and without the mark. -/
theorem name_of_nodeOf {node : TreeNode} {pageRaw : Text} {rest : List Text}
    (hof : NodeOf (pieces " | ".toList (nodeContent root)) node pageRaw rest) (hname : node.name = root.name) :
    trim root.name = root.name ∧ ¬" | ".toList <:+: root.name ∧ ¬" |".toList <:+ root.name := by
  obtain ⟨r, hcut, hprefix⟩ := cut_append " | ".toList root.name
    (root.kind.text ++ " | ".toList ++ (parentRef root.path ++ " | ".toList ++ nodeTail root))
  have hhead : trim r.1 = root.name := by
    have hfields := hof.fields
    rw [nodeContent, pieces_of_cut (by decide) hcut, List.map_cons, hname] at hfields
    exact (List.cons_eq_cons.1 hfields).1
  -- The first piece is no longer than the name, and is the name once it is trimmed.
  have hlength := (trim_sublist r.1).length_le
  rw [hhead] at hlength
  have hwhole : r.1 = root.name := hprefix.eq_of_length_le hlength
  have hbehind := cut_eq_some hcut
  rw [hwhole] at hbehind hhead
  have hrest := List.append_cancel_left hbehind
  have hfirst : r = (root.name, r.2) := by rw [← hwhole]
  rw [hfirst, ← hrest, cut_eq_iff (by decide)] at hcut
  refine ⟨hhead, not_or.1 fun hin => hcut ?_⟩
  exact (infix_bar_iff root.name).2 hin

/-- **What a line says is the root only when the root is legible.** -/
theorem legible_of_nodeOf (h : RootUnbroken root) {node : TreeNode} {pageRaw : Text} {rest : List Text}
    (hof : NodeOf (pieces " | ".toList (nodeContent root)) node pageRaw rest) (heq : node.fields = root.fields) : Legible root := by
  have hname : node.name = root.name := congrArg NodeFields.name heq
  have hpath : node.path = root.path := congrArg NodeFields.path heq
  have hsummary : node.summary = root.summary := congrArg NodeFields.summary heq
  have hid : node.id = root.id := congrArg NodeFields.id heq
  obtain ⟨htrim, hmark⟩ := name_of_nodeOf hof hname
  have hpage : LegiblePath root.path := by
    have hfields := hof.fields
    obtain ⟨q, hcut, hprefix⟩ := cut_append " | ".toList (parentRef root.path) (nodeTail root)
    have hpieces := pieces_of_cut (by decide) hcut
    rw [nodeContent, pieces_bar hmark, pieces_bar (no_bar (bar_not_mem_kind _)), hpieces] at hfields
    have hraw : trim q.1 = pageRaw := (List.cons_eq_cons.1 (List.cons_eq_cons.1 (List.cons_eq_cons.1 hfields).2).2).1
    have hbrackets : "[[".toList <+: q.1 := by
      have hwhole := cut_eq_some hcut
      rcases hq : q.1 with _ | ⟨a, _ | ⟨b, l⟩⟩
      · rw [hq] at hwhole
        exact absurd (List.cons_eq_cons.1 hwhole).1 (by decide)
      · rw [hq] at hwhole
        exact absurd (List.cons_eq_cons.1 (List.cons_eq_cons.1 hwhole).2).1 (by decide)
      · rw [hq] at hwhole
        have hfirst : '[' = a := (List.cons_eq_cons.1 hwhole).1
        have hsecond : '[' = b := (List.cons_eq_cons.1 (List.cons_eq_cons.1 hwhole).2).1
        rw [← hfirst, ← hsecond]
        exact ⟨l, rfl⟩
    have hstart : "[[".toList <+: trim pageRaw := by
      rw [← hraw]
      exact brackets_trim (brackets_trim hbrackets)
    have hbar : '|' ∉ pageName root.path := fun hin =>
      (marks_of_ref root.isPage hstart (hof.path.symm.trans hpath) _ hin).2.1 rfl
    have hwhole := hof.fields
    rw [nodeContent, pieces_bar hmark, pieces_page hbar h] at hwhole
    have href : trim (parentRef root.path) = pageRaw :=
      (List.cons_eq_cons.1 (List.cons_eq_cons.1 (List.cons_eq_cons.1 hwhole).2).2).1
    rw [trim_parentRef] at href
    refine (pagePathFromRef_eq_self root.isPage).1 ?_
    rw [href, ← hof.path, hpath]
  refine ⟨⟨?_, htrim, h.1⟩, hmark, hpage, h.2.1, ⟨?_, ?_, h.2.2⟩, fun hnone => ?_⟩
  · rw [← hname]
    exact hof.named.1
  · rw [← hsummary]
    exact hof.named.2.2
  · rw [← hsummary, hof.summary, trim_shownSummary]
  · rw [hnone, hof.id, Option.map_eq_none_iff] at hid
    rw [← hsummary, hof.summary, shownSummary, hid]
    exact hid

/-! ## The lines of a group -/

/-- A node that the line of a root gives. -/
def Reads (root : DiscoveredRoot) (node : TreeNode) : Prop :=
  ∃ pageRaw rest, NodeOf (pieces " | ".toList (nodeContent root)) node pageRaw rest

def TreeState.withNodes (s : TreeState) (nodes : List TreeNode) : TreeState :=
  { s with tree := { s.tree with nodes := s.tree.nodes ++ nodes } }

/-- A root's line that gives no problem gives a node. -/
theorem read_root {s : TreeState} (h : RootUnbroken root) (line : Nat)
    (hclean : (s.read lib line (formatTreeNode root)).tree.problems = []) :
    ∃ node, s.read lib line (formatTreeNode root) = s.node node ∧ Reads root node := by
  rw [read_formatTreeNode h] at hclean ⊢
  split at hclean
  next => simp at hclean
  next hlength =>
    rw [if_neg hlength]
    rcases nodeFields_cases s line (pieces " | ".toList (nodeContent root)) with
      ⟨-, hshort⟩ | ⟨rule, message, heq⟩ | ⟨node, pageRaw, rest, hof, ⟨heq, -⟩ | ⟨rule, message, heq⟩⟩
    · omega
    · rw [heq] at hclean
      simp at hclean
    · exact ⟨node, heq, pageRaw, rest, hof⟩
    · rw [heq] at hclean
      simp at hclean

theorem read_legible {s : TreeState} (h : RootUnbroken root) (hlegible : Legible root) (hgroup : s.group = some root.kind)
    (line : Nat) : s.read lib line (formatTreeNode root) = s.node (root.node line) := by
  have hlength : ¬(pieces " | ".toList (nodeContent root)).length < 4 := by
    have hbar : '|' ∉ pageName root.path := fun hin => hlegible.path.marks _ hin (by decide)
    rw [nodeContent, pieces_bar hlegible.nameMark, pieces_page hbar h]
    exact Nat.lt_irrefl 4
  rw [read_formatTreeNode h, if_neg hlength, nodeFields_of (nodeOf_legible h hlegible line) hgroup]
  rfl

/-- **Roots whose lines give no problem give a node each.** -/
theorem readAll_roots {roots : List DiscoveredRoot} (h : ∀ root ∈ roots, RootUnbroken root) (s : TreeState) (n : Nat)
    (hclean : (readAll lib offset ((roots.map formatTreeNode).zipIdx n) s).tree.problems = []) :
    ∃ nodes, readAll lib offset ((roots.map formatTreeNode).zipIdx n) s = s.withNodes nodes ∧ List.Forall₂ Reads roots nodes := by
  induction roots generalizing s n with
  | nil => exact ⟨[], by simp [readAll, TreeState.withNodes], .nil⟩
  | cons root roots ih =>
    have hfirst : (s.read lib (n + 1 + offset) (formatTreeNode root)).tree.problems = [] :=
      List.prefix_nil.1 (hclean ▸ readAll_problems _ _)
    obtain ⟨node, hread, hreads⟩ := read_root (h root List.mem_cons_self) _ hfirst
    rw [List.map_cons, List.zipIdx_cons] at hclean ⊢
    have hstep : ∀ ls, readAll lib offset ((formatTreeNode root, n) :: ls) s = readAll lib offset ls (s.node node) := by
      intro ls
      rw [← hread]
      rfl
    rw [hstep] at hclean ⊢
    obtain ⟨nodes, hrest, hall⟩ := ih (fun r hr => h r (List.mem_cons_of_mem _ hr)) _ _ hclean
    refine ⟨node :: nodes, ?_, .cons hreads hall⟩
    rw [hrest]
    simp [TreeState.withNodes, TreeState.node]

/-- **Legible roots of one group come back.** -/
theorem readAll_legible {kind : MemoryKind} {roots : List DiscoveredRoot}
    (h : ∀ root ∈ roots, RootUnbroken root ∧ Legible root ∧ root.kind = kind) (s : TreeState) (hgroup : s.group = some kind) (n : Nat) :
    ∃ nodes, readAll lib offset ((roots.map formatTreeNode).zipIdx n) s = s.withNodes nodes ∧
      nodes.map TreeNode.fields = roots.map DiscoveredRoot.fields := by
  induction roots generalizing s n with
  | nil => exact ⟨[], by simp [readAll, TreeState.withNodes], rfl⟩
  | cons root roots ih =>
    obtain ⟨hunbroken, hlegible, hkind⟩ := h root List.mem_cons_self
    have hread := @read_legible lib _ s hunbroken hlegible (hgroup.trans (by rw [hkind])) (n + 1 + offset)
    rw [List.map_cons, List.zipIdx_cons]
    have hstep : ∀ ls, readAll lib offset ((formatTreeNode root, n) :: ls) s =
        readAll lib offset ls (s.node (root.node (n + 1 + offset))) := by
      intro ls
      rw [← hread]
      rfl
    obtain ⟨nodes, hrest, hfields⟩ :=
      ih (fun r hr => h r (List.mem_cons_of_mem _ hr)) (s.node (root.node (n + 1 + offset))) hgroup (n + 1)
    refine ⟨root.node (n + 1 + offset) :: nodes, ?_, ?_⟩
    · rw [hstep, hrest]
      simp [TreeState.withNodes, TreeState.node]
    · rw [List.map_cons, List.map_cons, hfields]
      rfl

/-! ## The file -/

/-- Lines that say nothing. -/
theorem readAll_still {ls : List Text} (h : ∀ l ∈ ls, ∀ (s : TreeState) line, s.read lib line l = s) (s : TreeState) (n : Nat) :
    readAll lib offset (ls.zipIdx n) s = s := by
  induction ls generalizing n with
  | nil => rfl
  | cons l ls ih =>
    have hfirst : s.read lib (n + 1 + offset) l = s := h l List.mem_cons_self s _
    have hrest := ih (fun m hm => h m (List.mem_cons_of_mem _ hm)) (n + 1)
    rw [List.zipIdx_cons]
    show readAll lib offset (ls.zipIdx (n + 1)) (s.read lib (n + 1 + offset) l) = s
    rw [hfirst, hrest]

theorem read_prose {l : Text} (h : headingTitle (withoutSuffix ['\r'] l) = none ∧ isNestedLine (withoutSuffix ['\r'] l) = false ∧
    nodeLine (withoutSuffix ['\r'] l) = none) (s : TreeState) (line : Nat) : s.read lib line l = s := by
  simp only [TreeState.read, h.1, h.2.1, h.2.2]
  rfl

/-- A line of prose: it starts with a character that opens nothing. -/
def IsProse (l : Text) : Prop :=
  l = [] ∨ ∃ c t, l = c :: t ∧ Js.isSpace c = false ∧ c ≠ '-' ∧ ¬"## ".toList <+: c :: t ∧ SingleLine l

theorem IsProse.still {l : Text} (h : IsProse l) (s : TreeState) (line : Nat) : s.read lib line l = s := by
  rcases h with rfl | ⟨c, t, rfl, hspace, hdash, hheading, -⟩
  · exact read_prose (by decide) s line
  · obtain ⟨u, hu, hprefix⟩ : ∃ u, withoutSuffix ['\r'] (c :: t) = c :: u ∧ c :: u <+: c :: t := by
      rw [withoutSuffix]
      split
      next hsuffix =>
        obtain ⟨p, hp⟩ := List.isSuffixOf_iff_suffix.1 hsuffix
        cases p with
        | nil =>
          obtain rfl : '\r' = c := (List.cons_eq_cons.1 hp).1
          exact absurd hspace (by decide)
        | cons d p =>
          obtain rfl : d = c := (List.cons_eq_cons.1 hp).1
          rw [← hp]
          exact ⟨p, List.rdrop_append_length, List.prefix_append _ _⟩
      next => exact ⟨t, rfl, List.prefix_refl _⟩
    have hnot : startsWith (c :: u) "## ".toList = false :=
      Bool.eq_false_iff.2 fun hstart => hheading ((startsWith_iff.1 hstart).trans hprefix)
    have hbullet : startsWith (c :: u) "- ".toList = false :=
      Bool.eq_false_iff.2 fun hstart => hdash (List.cons_prefix_cons.1 (startsWith_iff.1 hstart)).1.symm
    refine read_prose ?_ s line
    rw [hu]
    refine ⟨?_, ?_, ?_⟩
    · simp only [headingTitle, hnot, Bool.false_eq_true, reduceIte]
    · simp [isNestedLine, hspace]
    · simp only [nodeLine, hbullet, Bool.false_eq_true, false_and, reduceIte]

set_option maxRecDepth 4000 in
theorem isProse_treeProse : ∀ l ∈ treeProse, IsProse l := by
  have hline : ∀ c t, Js.isSpace c = false → c ≠ '-' → ¬"## ".toList <+: c :: t → SingleLine (c :: t) → IsProse (c :: t) :=
    fun c t hspace hdash hheading hsingle => Or.inr ⟨c, t, rfl, hspace, hdash, hheading, hsingle⟩
  unfold treeProse
  simp only [List.forall_mem_cons, List.not_mem_nil, false_imp_iff, implies_true, and_true]
  refine ⟨Or.inl rfl, ?_, Or.inl rfl, ?_, ?_, Or.inl rfl, ?_⟩
  all_goals
    simp only [String.toList_append, String.reduceToList, List.cons_append]
    exact hline _ _ (by decide) (by decide) (by simp) (by simp [SingleLine])

theorem prose_still : ∀ l ∈ treeProse, ∀ (s : TreeState) line, s.read lib line l = s := fun l hl =>
  (isProse_treeProse l hl).still

theorem blank_still (s : TreeState) (line : Nat) : s.read lib line [] = s := read_prose (by decide) s line

/-- The heading of a group opens it. -/
theorem read_heading (hlib : lib.KeepsMarks) (s : TreeState) (line : Nat) (kind : MemoryKind) :
    s.read lib line ("## ".toList ++ groupHeading kind) = { s with group := some kind } := by
  have htitle : headingTitle (withoutSuffix ['\r'] ("## ".toList ++ groupHeading kind)) = some (groupHeading kind) := by
    cases kind <;> decide
  have hgroup : memoryKinds.find? (fun k => lib.toLowerCase (groupHeading k) = lib.toLowerCase (groupHeading kind)) = some kind := by
    cases kind with
    | working => simp [memoryKinds]
    | longTerm =>
      have hother : lib.toLowerCase (groupHeading .working) ≠ lib.toLowerCase (groupHeading .longTerm) := fun heq =>
        absurd (marks_eq hlib heq) (by decide)
      simp [memoryKinds, hother]
  simp only [TreeState.read, htitle, TreeState.heading, hgroup]
  rfl

/-- The lines of a group are read in its group. -/
theorem readAll_group (hlib : lib.KeepsMarks) (roots : List DiscoveredRoot) (kind : MemoryKind) (s : TreeState) (n : Nat) :
    readAll lib offset ((groupLines roots kind).zipIdx n) s =
      readAll lib offset (((roots.filter (·.kind = kind)).map formatTreeNode).zipIdx (n + 3)) { s with group := some kind } := by
  rw [groupLines, List.zipIdx_append, readAll_append]
  congr 1
  show ((s.read lib (n + 1 + offset) []).read lib (n + 1 + 1 + offset) ("## ".toList ++ groupHeading kind)).read lib
    (n + 1 + 1 + 1 + offset) [] = _
  rw [blank_still, blank_still, read_heading hlib]

def rootsOf (roots : List DiscoveredRoot) (kind : MemoryKind) : List DiscoveredRoot := roots.filter (·.kind = kind)

/-- The lines of the roots of both groups, each read in its group. -/
def readGroups (lib : Library) (offset : Nat) (roots : List DiscoveredRoot) (m n : Nat) : TreeState :=
  readAll lib offset (((rootsOf roots .longTerm).map formatTreeNode).zipIdx n)
    { readAll lib offset (((rootsOf roots .working).map formatTreeNode).zipIdx m) { group := some .working } with
      group := some .longTerm }

theorem closed_treeFrontmatter {date : Text} (h : SingleLine date) : Closed (join (treeFrontmatter date)) := by
  have hshape : '\n' :: join (treeFrontmatter date) =
      [] ++ '\n' :: ("title: Tree".toList ++ '\n' :: (("updated: ".toList ++ date) ++ '\n' :: "generated: zenod-discover".toList)) := rfl
  have hdate : SingleLine ("updated: ".toList ++ date) := fun hin => (List.mem_append.1 hin).elim (by decide) h
  rw [Closed, hshape]
  intro hin
  rcases (infix_newline (by decide) _).1 hin with hin | hin
  · exact absurd (List.cons_prefix_cons.1 hin).1 (by decide)
  · rcases (infix_newline (by decide) _).1 hin with hin | hin
    · exact absurd (List.cons_prefix_cons.1 hin).1 (by decide)
    · rcases (infix_newline hdate _).1 hin with hin | hin
      · exact absurd (List.cons_prefix_cons.1 hin).1 (by decide)
      · exact absurd hin (by decide)

/-- **The body behind the frontmatter** is the lines that were written. -/
theorem body_render (roots : List DiscoveredRoot) {date : Text} (h : SingleLine date) :
    (parseNote lib.yaml (renderDiscoveredTree roots date)).body =
      terminated (treeProse ++ memoryKinds.flatMap (groupLines roots)) := by
  have hraw : renderDiscoveredTree roots date = "---\n".toList ++ join (treeFrontmatter date) ++ closing ++
      '\n' :: terminated (treeProse ++ memoryKinds.flatMap (groupLines roots)) := by
    have hfront : terminated (treeFrontmatter date) = join (treeFrontmatter date) ++ ['\n'] :=
      (join_append_newline (List.cons_ne_nil _ _)).symm
    rw [renderDiscoveredTree, join_append_newline (by simp), List.append_assoc _ treeProse]
    simp only [terminated_append, terminated_cons, terminated_nil, List.append_assoc, hfront]
    rfl
  rw [hraw]
  exact (parseNote_envelope (closed_treeFrontmatter h) _).1

theorem groupLines_singleLine {roots : List DiscoveredRoot} (h : ∀ root ∈ roots, RootUnbroken root) (kind : MemoryKind) :
    ∀ l ∈ groupLines roots kind, SingleLine l := by
  intro l hl
  rcases List.mem_append.1 hl with hl | hl
  · have hhead : ∀ l ∈ ([[], "## ".toList ++ groupHeading kind, []] : List Text), SingleLine l := by
      cases kind <;> decide
    exact hhead l hl
  · obtain ⟨root, hroot, rfl⟩ := List.mem_map.1 hl
    rw [formatTreeNode_eq]
    intro hin
    exact (h root (List.mem_filter.1 hroot).1).content.newline ((List.mem_append.1 hin).resolve_left (by decide))

/-- **What is parsed of a rendered tree**: the lines of its roots. -/
theorem parseTree_render (hlib : lib.KeepsMarks) {roots : List DiscoveredRoot} {date : Text} (hdate : SingleLine date)
    (h : ∀ root ∈ roots, RootUnbroken root) :
    ∃ offset m n, parseTree lib (renderDiscoveredTree roots date) = (readGroups lib offset roots m n).tree := by
  have hsingle : ∀ l ∈ treeProse ++ memoryKinds.flatMap (groupLines roots), SingleLine l := by
    intro l hl
    rcases List.mem_append.1 hl with hl | hl
    · rcases isProse_treeProse l hl with rfl | ⟨c, t, -, -, -, -, hsingle⟩
      · exact List.not_mem_nil
      · exact hsingle
    · obtain ⟨kind, -, hl⟩ := List.mem_flatMap.1 hl
      exact groupLines_singleLine h kind l hl
  have hgroups : memoryKinds.flatMap (groupLines roots) = groupLines roots .working ++ groupLines roots .longTerm := by
    simp [memoryKinds]
  obtain ⟨offset, hoffset⟩ : ∃ offset, parseTree lib (renderDiscoveredTree roots date) =
      (readAll lib offset ((treeProse ++ (groupLines roots .working ++ groupLines roots .longTerm) ++ [[]]).zipIdx) {}).tree := by
    rw [← hgroups, ← lines_terminated hsingle, ← body_render roots hdate]
    exact ⟨_, rfl⟩
  have hblank : ∀ l ∈ ([[]] : List Text), ∀ (s : TreeState) line, s.read lib line l = s := by
    intro l hl s line
    rw [List.mem_singleton.1 hl]
    exact blank_still s line
  rw [List.zipIdx_append, readAll_append, readAll_still hblank, List.zipIdx_append, readAll_append,
    readAll_still prose_still, List.zipIdx_append, readAll_append, readAll_group hlib, readAll_group hlib] at hoffset
  exact ⟨offset, _, _, hoffset⟩

/-- **Tree.md reads back exactly when its roots are legible.** -/
theorem treeRestored_iff (hlib : lib.KeepsMarks) (roots : List DiscoveredRoot) {date : Text} (hdate : SingleLine date) :
    TreeRestored lib roots date ↔ ∀ root ∈ roots, Legible root := by
  have hkinds : (memoryKinds.flatMap fun kind => (roots.filter (·.kind = kind)).map DiscoveredRoot.fields) =
      (rootsOf roots .working).map DiscoveredRoot.fields ++ (rootsOf roots .longTerm).map DiscoveredRoot.fields := by
    simp [memoryKinds, rootsOf]
  have hkind : ∀ root ∈ roots, root ∈ rootsOf roots root.kind := fun root hroot => List.mem_filter.2 ⟨hroot, by simp⟩
  constructor
  · rintro ⟨hclean, hnodes⟩ root hroot
    rw [hkinds] at hnodes
    -- What comes back stands on one line, so every root does.
    have hunbroken : ∀ root ∈ roots, RootUnbroken root := by
      intro root hroot
      have hmem : root.fields ∈ (parseTree lib (renderDiscoveredTree roots date)).nodes.map TreeNode.fields := by
        rw [hnodes, List.mem_append]
        cases hk : root.kind with
        | working => exact Or.inl (List.mem_map_of_mem (hk ▸ hkind root hroot))
        | longTerm => exact Or.inr (List.mem_map_of_mem (hk ▸ hkind root hroot))
      obtain ⟨node, hnode, hfields⟩ := List.mem_map.1 hmem
      obtain ⟨hname, hpath, hsummary⟩ := parseTree_unbroken _ node hnode
      have hname' : node.name = root.name := congrArg NodeFields.name hfields
      have hpath' : node.path = root.path := congrArg NodeFields.path hfields
      have hsummary' : node.summary = root.summary := congrArg NodeFields.summary hfields
      exact ⟨hname' ▸ hname, hpath' ▸ hpath, hsummary' ▸ hsummary⟩
    obtain ⟨offset, m, n, hparse⟩ := parseTree_render hlib hdate hunbroken
    have hof : ∀ kind, ∀ root ∈ rootsOf roots kind, RootUnbroken root := fun kind root hr => hunbroken root (List.mem_filter.1 hr).1
    rw [hparse, readGroups] at hclean hnodes
    obtain ⟨longTerm, hlong, hlongReads⟩ := readAll_roots (hof .longTerm) _ n hclean
    have hfirst : (readAll lib offset (((rootsOf roots .working).map formatTreeNode).zipIdx m)
        { group := some .working }).tree.problems = [] := by
      have hprefix := @readAll_problems lib offset (((rootsOf roots .longTerm).map formatTreeNode).zipIdx n)
        { readAll lib offset (((rootsOf roots .working).map formatTreeNode).zipIdx m) { group := some .working } with
          group := some .longTerm }
      rw [hclean] at hprefix
      exact List.prefix_nil.1 hprefix
    obtain ⟨working, hwork, hworkReads⟩ := readAll_roots (hof .working) _ m hfirst
    rw [hlong, hwork] at hnodes
    have hfields : working.map TreeNode.fields ++ longTerm.map TreeNode.fields =
        (rootsOf roots .working).map DiscoveredRoot.fields ++ (rootsOf roots .longTerm).map DiscoveredRoot.fields := by
      rw [← hnodes, ← List.map_append]
      rfl
    obtain ⟨hworkFields, hlongFields⟩ := List.append_inj hfields (by rw [List.length_map, List.length_map, hworkReads.length_eq])
    have hlegible : ∀ {rs : List DiscoveredRoot} {nodes}, (∀ r ∈ rs, RootUnbroken r) → List.Forall₂ Reads rs nodes →
        nodes.map TreeNode.fields = rs.map DiscoveredRoot.fields → ∀ r ∈ rs, Legible r := by
      intro rs nodes hrs hall heq
      induction hall with
      | nil => exact fun r hr => (by cases hr)
      | cons hreads _ ih =>
        obtain ⟨pageRaw, rest, hof⟩ := hreads
        obtain ⟨hhead, htail⟩ := List.cons_eq_cons.1 heq
        intro r hr
        rcases List.mem_cons.1 hr with rfl | hr
        · exact legible_of_nodeOf (hrs r List.mem_cons_self) hof hhead
        · exact ih (fun r hr => hrs r (List.mem_cons_of_mem _ hr)) htail r hr
    have hmem := hkind root hroot
    cases hk : root.kind with
    | working => exact hlegible (hof .working) hworkReads hworkFields root (hk ▸ hmem)
    | longTerm => exact hlegible (hof .longTerm) hlongReads hlongFields root (hk ▸ hmem)
  · intro hlegible
    have hunbroken : ∀ root ∈ roots, RootUnbroken root := fun root hroot =>
      ⟨(hlegible root hroot).name.unbroken, (hlegible root hroot).unbroken, (hlegible root hroot).summary.unbroken⟩
    obtain ⟨offset, m, n, hparse⟩ := parseTree_render hlib hdate hunbroken
    have hof : ∀ kind, ∀ root ∈ rootsOf roots kind, RootUnbroken root ∧ Legible root ∧ root.kind = kind := by
      intro kind root hr
      obtain ⟨hroot, hk⟩ := List.mem_filter.1 hr
      exact ⟨hunbroken root hroot, hlegible root hroot, of_decide_eq_true hk⟩
    obtain ⟨working, hwork, hworkFields⟩ := readAll_legible (hof .working) { group := some .working } rfl m
    obtain ⟨longTerm, hlong, hlongFields⟩ := readAll_legible (hof .longTerm)
      { TreeState.withNodes { group := some .working } working with group := some .longTerm } rfl n
    unfold TreeRestored
    rw [hkinds, hparse, readGroups, hwork, hlong, ← hworkFields, ← hlongFields, ← List.map_append]
    exact ⟨rfl, rfl⟩

/-! ## Tree files and parent references -/

theorem linkTargets_of_index {v : VaultState} {index : TreeIndex} (h : v.buildTreeIndex lib = some index) :
    index.linkTargets = linkTargets lib v.listMarkdownFiles := by
  simp only [VaultState.buildTreeIndex] at h
  split at h
  · cases h
  · split at h
    · cases h
      rfl
    · cases h

/-- **Which tree files and parent references are faithful.** A rendered tree reads back without a problem exactly when
every root is legible, and the parent reference of a tree page resolves to the page exactly when its path is findable. -/
theorem tree_files_faithful (lib : Library) (hlib : lib.KeepsMarks) (roots : List DiscoveredRoot) {date : Text}
    (hdate : SingleLine date) {v : VaultState} {index : TreeIndex} (hindex : v.buildTreeIndex lib = some index) :
    (TreeRestored lib roots date ↔ ∀ root ∈ roots, Legible root) ∧
      ∀ path, isTreePage path = true →
        (index.resolveRef lib (parentRef path) = some path ↔ Findable lib v.listMarkdownFiles path) :=
  ⟨treeRestored_iff hlib roots hdate, fun _ hpage => resolveRef_parentRef hlib (linkTargets_of_index hindex) hpage⟩

/-! ## A page about C# -/

/-- A library whose texts have ASCII letters only. -/
def asciiLibrary : Library where
  yaml := { parse := fun _ => none, stringify := fun _ => [] }
  toLowerCase := List.map Char.toLower
  localeLe := le

theorem isMark_eq_false {c : Char} (h : isTopChar c = true) : isMark c = false := by
  cases hmark : isMark c with
  | false => rfl
  | true =>
    have hcases : (c = '/' ∨ c = '.' ∨ c = ']' ∨ c = '|' ∨ c = '#' ∨ c = '-') ∨ c = Char.ofNat 0x5c := by
      simpa [isMark, not_space_of_isTopChar h] using hmark
    rcases hcases with (rfl | rfl | rfl | rfl | rfl | rfl) | rfl <;> exact absurd h (by decide)

theorem isMark_toLower (c : Char) : isMark c.toLower = isMark c ∧ (isMark c = true → c.toLower = c) := by
  by_cases hupper : 0x41 ≤ c.toNat ∧ c.toNat ≤ 0x5a
  · have hall : ∀ n < 26, isTopChar (Char.ofNat (0x41 + n)).toLower = true ∧ isTopChar (Char.ofNat (0x41 + n)) = true := by
      decide
    have hc : c = Char.ofNat (0x41 + (c.toNat - 0x41)) := by
      rw [Nat.add_sub_cancel' hupper.1, Char.ofNat_toNat]
    obtain ⟨hlower, hsame⟩ := hall (c.toNat - 0x41) (by omega)
    rw [← hc] at hlower hsame
    rw [isMark_eq_false hlower, isMark_eq_false hsame]
    exact ⟨rfl, fun h => (by cases h)⟩
  · have hsame : c.toLower = c := by
      refine dif_neg fun h => hupper ?_
      simp only [ge_iff_le, UInt32.le_iff_toNat_le] at h
      exact h
    rw [hsame]
    exact ⟨rfl, fun _ => rfl⟩

theorem asciiLibrary_keepsMarks : asciiLibrary.KeepsMarks := by
  intro t
  show (t.map Char.toLower).filter isMark = t.filter isMark
  induction t with
  | nil => rfl
  | cons c t ih =>
    rw [List.map_cons, List.filter_cons, List.filter_cons, (isMark_toLower c).1, ih]
    split
    next h => rw [(isMark_toLower c).2 h]
    next => rfl

def pageFile (path : String) : Text × File := (path.toList, { content := some [], mtimeMs := 1, size := 0 })

def rootOf (path : String) (name : String) (h : isTreePage path.toList = true) : DiscoveredRoot where
  name := name.toList
  kind := .working
  path := path.toList
  summary := withoutBars "2 pages, incl. a | b; no recent capture of yours.".toList
  id := some "n-1a2b3c4d".toList
  isPage := h
  noBar := bar_not_mem_withoutBars _
  idOk := by
    intro i hi
    obtain rfl : "n-1a2b3c4d".toList = i := Option.some.inj hi
    decide

def codeVault : VaultState := ⟨[pageFile "Notes/C# tips.md", pageFile "Notes/Code.md"], by decide⟩

/-- **A page whose name has an anchor mark** is lost as a root and is no parent its children can name. -/
theorem anchored_page_lost :
    ¬TreeRestored asciiLibrary [rootOf "Notes/C# tips.md" "C# tips" (by decide)] "2026-01-05".toList ∧
      (codeVault.buildTreeIndex asciiLibrary).map (·.resolveRef asciiLibrary (parentRef "Notes/C# tips.md".toList)) = some none := by
  refine ⟨?_, by decide +kernel⟩
  rw [treeRestored_iff asciiLibrary_keepsMarks _ (by decide)]
  intro h
  exact (h _ List.mem_cons_self).path.marks '#' (by decide) (by decide)

def codeIndex : TreeIndex := (codeVault.buildTreeIndex asciiLibrary).get (by decide +kernel)

def codeRoot : DiscoveredRoot := rootOf "Notes/Code.md" "Code" (by decide)

theorem legible_codePath : LegiblePath "Notes/Code.md".toList where
  marks := forall_of_all (by decide)
  tight := by decide
  suffix := by decide

theorem legible_codeRoot : Legible codeRoot where
  name := ⟨by decide, by decide, unbroken_of_all (by decide)⟩
  nameMark := by decide
  path := legible_codePath
  unbroken := unbroken_of_all (by decide)
  summary := ⟨by decide +kernel, by decide +kernel, unbroken_of_all (by decide +kernel)⟩
  summaryId := fun h => (by cases h)

/-- The other page of the vault comes back. -/
theorem code_page_kept : TreeRestored asciiLibrary [codeRoot] "2026-01-05".toList ∧
    codeIndex.resolveRef asciiLibrary (parentRef "Notes/Code.md".toList) = some "Notes/Code.md".toList := by
  obtain ⟨hroots, hpages⟩ := tree_files_faithful asciiLibrary asciiLibrary_keepsMarks [codeRoot]
    (show SingleLine "2026-01-05".toList by decide) (show codeVault.buildTreeIndex asciiLibrary = some codeIndex from (Option.some_get _).symm)
  refine ⟨hroots.2 fun root hroot => ?_, (hpages _ (by decide)).2 (Or.inl ⟨legible_codePath, by decide +kernel⟩)⟩
  rw [List.mem_singleton.1 hroot]
  exact legible_codeRoot

end Zenod.Vault
