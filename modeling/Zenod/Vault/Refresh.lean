/-
What a refresh of the memory index leaves behind: the rows of the vault's
files, always (`Tracks`), and the lineage of each, unless a row it writes
takes the row id of one it removes.

`refreshAll_agrees_iff`: in every run of refreshes the index agrees with a
rebuild after each of them if and only if each is `Sound`.
-/
import Mathlib.Data.List.Chain
import Zenod.Vault.MemoryIndex

namespace Zenod.Vault

open Text

variable {lib : Library} {index : MemoryIndex} {v w : VaultState}

/-! ## The tables -/

def Doc.draft (d : Doc) : RowDraft := d.toRow.toRowDraft

def Doc.placing (d : Doc) : Placing := d.toRow.toPlacing

def drafts (docs : List Doc) (path : Text) : List RowDraft := (docs.map Doc.draft).filter (·.file = path)

def rowids (docs : List Doc) : List Nat := docs.map (·.rowid)

theorem drafts_append (docs more : List Doc) (path : Text) :
    drafts (docs ++ more) path = drafts docs path ++ drafts more path := by
  rw [drafts, List.map_append, List.filter_append]
  rfl

theorem lt_nextRowid {docs : List Doc} {i : Nat} (h : i ∈ rowids docs) : i < nextRowid docs := by
  unfold nextRowid
  induction docs with
  | nil => cases h
  | cons d docs ih =>
    simp only [rowids, List.map_cons, List.mem_cons] at h
    simp only [List.map_cons, List.foldr_cons]
    rcases h with rfl | h
    · omega
    · have := ih h
      omega

theorem nodup_insertRow {docs : List Doc} (h : (rowids docs).Nodup) (row : Row) :
    (rowids (insertRow docs row)).Nodup := by
  simp only [insertRow, rowids, List.map_append, List.map_cons, List.map_nil]
  refine List.nodup_append.2 ⟨h, List.nodup_singleton _, ?_⟩
  intro i hi j hj
  rw [List.mem_singleton] at hj
  subst hj
  exact Nat.ne_of_lt (lt_nextRowid hi)

theorem nodup_insertRows {docs : List Doc} (h : (rowids docs).Nodup) (rows : List Row) :
    (rowids (rows.foldl insertRow docs)).Nodup := by
  induction rows generalizing docs with
  | nil => exact h
  | cons row rows ih => exact ih (nodup_insertRow h row)

theorem drafts_insertRows (docs : List Doc) (rows : List Row) (path : Text) :
    drafts (rows.foldl insertRow docs) path =
      drafts docs path ++ (rows.map (·.toRowDraft)).filter (·.file = path) := by
  induction rows generalizing docs with
  | nil => rw [List.foldl_nil, List.map_nil, List.filter_nil, List.append_nil]
  | cons row rows ih =>
    rw [List.foldl_cons, ih, insertRow, drafts_append, List.append_assoc, List.map_cons]
    congr 1
    simp only [drafts, Doc.draft, List.map_cons, List.map_nil, List.filter_cons, List.filter_nil]
    split <;> rfl

theorem mem_insertRows {docs : List Doc} {rows : List Row} {d : Doc} (h : d ∈ rows.foldl insertRow docs) :
    d ∈ docs ∨ d.toRow ∈ rows := by
  induction rows generalizing docs with
  | nil => exact Or.inl h
  | cons row rows ih =>
    rcases ih h with h | h
    · rcases List.mem_append.1 h with h | h
      · exact Or.inl h
      · rw [List.mem_singleton] at h
        subst h
        exact Or.inr List.mem_cons_self
    · exact Or.inr (List.mem_cons_of_mem _ h)

theorem drafts_deleteRows (docs : List Doc) (gone path : Text) :
    drafts (deleteRows docs gone) path = if path = gone then [] else drafts docs path := by
  simp only [drafts, deleteRows]
  have hswap : (docs.filter (·.file ≠ gone)).map Doc.draft = (docs.map Doc.draft).filter (·.file ≠ gone) := by
    rw [List.filter_map]
    rfl
  rw [hswap, List.filter_filter]
  split
  next heq =>
    rw [List.filter_eq_nil_iff]
    intro d _ hd
    simp only [Bool.and_eq_true, decide_eq_true_eq] at hd
    exact hd.2 (hd.1.trans heq)
  next hne =>
    refine List.filter_congr fun d _ => ?_
    by_cases hd : d.file = path
    · simp [hd, hne]
    · simp [hd]

theorem nodup_deleteRows {docs : List Doc} (h : (rowids docs).Nodup) (gone : Text) :
    (rowids (deleteRows docs gone)).Nodup :=
  h.sublist (List.filter_sublist.map _)

theorem mem_deleteRows {docs : List Doc} {gone : Text} {d : Doc} :
    d ∈ deleteRows docs gone ↔ d ∈ docs ∧ d.file ≠ gone := by
  simp only [deleteRows, List.mem_filter, decide_eq_true_eq]

/-! ## Rows of a file -/

theorem file_of_mem_rowsOf {path : Text} {row : RowDraft} (h : row ∈ rowsOf lib v path) : row.file = path := by
  unfold rowsOf at h
  split at h
  next => cases h
  next raw _ =>
    unfold rowsOfText at h
    split at h
    next =>
      obtain ⟨node, -, rfl⟩ := List.mem_map.1 h
      rfl
    next =>
      split at h
      next =>
        obtain ⟨entry, -, rfl⟩ := List.mem_map.1 h
        rfl
      next =>
        rw [List.mem_singleton] at h
        subst h
        rfl

theorem filter_rowsOf (path other : Text) :
    (rowsOf lib v path).filter (·.file = other) = if other = path then rowsOf lib v path else [] := by
  split
  next heq =>
    refine List.filter_eq_self.2 fun row hrow => ?_
    rw [decide_eq_true_eq, file_of_mem_rowsOf hrow, heq]
  next hne =>
    refine List.filter_eq_nil_iff.2 fun row hrow hfile => ?_
    rw [decide_eq_true_eq, file_of_mem_rowsOf hrow] at hfile
    exact hne hfile.symm

theorem toRowDraft_resolve (rows : List RowDraft) :
    (rows.map (RowDraft.resolve lib v)).map (·.toRowDraft) = rows := by
  rw [List.map_map]
  exact List.map_id'' (fun _ => rfl) rows

/-! ## Writing and removing files -/

theorem drafts_write (file : KnownFile) (path : Text) :
    drafts (MemoryIndex.write lib v index file).docs path =
      if path = file.path then rowsOf lib v file.path else drafts index.docs path := by
  rw [MemoryIndex.write, drafts_insertRows, toRowDraft_resolve, drafts_deleteRows, filter_rowsOf]
  split
  · rw [List.nil_append]
  · rw [List.append_nil]

theorem drafts_writes (files : List KnownFile) (path : Text) :
    drafts (files.foldl (MemoryIndex.write lib v) index).docs path =
      if path ∈ files.map (·.path) then rowsOf lib v path else drafts index.docs path := by
  induction files generalizing index with
  | nil => rfl
  | cons file files ih =>
    rw [List.foldl_cons, ih, drafts_write, List.map_cons]
    by_cases hin : path ∈ files.map (·.path)
    · rw [if_pos hin, if_pos (List.mem_cons_of_mem _ hin)]
    · rw [if_neg hin]
      by_cases heq : path = file.path
      · rw [if_pos heq, if_pos (heq ▸ List.mem_cons_self), heq]
      · rw [if_neg heq, if_neg]
        intro h
        rcases List.mem_cons.1 h with h | h
        · exact heq h
        · exact hin h

theorem nodup_writes {files : List KnownFile} (h : (rowids index.docs).Nodup) :
    (rowids (files.foldl (MemoryIndex.write lib v) index).docs).Nodup := by
  induction files generalizing index with
  | nil => exact h
  | cons file files ih => exact ih (nodup_insertRows (nodup_deleteRows h _) _)

/-- A row of the table is one written, or was there and its file is not written. -/
theorem mem_writes {files : List KnownFile} {d : Doc}
    (h : d ∈ (files.foldl (MemoryIndex.write lib v) index).docs) :
    d.placing = lineageResolver lib v d.kind d.path ∨ d ∈ index.docs ∧ d.file ∉ files.map (·.path) := by
  induction files generalizing index with
  | nil => exact Or.inr ⟨h, List.not_mem_nil⟩
  | cons file files ih =>
    rcases ih h with h | ⟨h, hnot⟩
    · exact Or.inl h
    · rcases mem_insertRows h with h | h
      · obtain ⟨hold, hne⟩ := mem_deleteRows.1 h
        refine Or.inr ⟨hold, fun hin => ?_⟩
        rcases List.mem_cons.1 hin with hin | hin
        · exact hne hin
        · exact hnot hin
      · obtain ⟨row, -, hrow⟩ := List.mem_map.1 h
        left
        simp only [Doc.placing, ← hrow]
        rfl

theorem drafts_removes (paths : List Text) (path : Text) :
    drafts (paths.foldl MemoryIndex.remove index).docs path =
      if path ∈ paths then [] else drafts index.docs path := by
  induction paths generalizing index with
  | nil => rfl
  | cons gone paths ih =>
    rw [List.foldl_cons, ih, MemoryIndex.remove, drafts_deleteRows]
    by_cases hin : path ∈ paths
    · rw [if_pos hin, if_pos (List.mem_cons_of_mem _ hin)]
    · rw [if_neg hin]
      by_cases heq : path = gone
      · rw [if_pos heq, if_pos (heq ▸ List.mem_cons_self)]
      · rw [if_neg heq, if_neg]
        intro h
        rcases List.mem_cons.1 h with h | h
        · exact heq h
        · exact hin h

theorem nodup_removes {paths : List Text} (h : (rowids index.docs).Nodup) :
    (rowids (paths.foldl MemoryIndex.remove index).docs).Nodup := by
  induction paths generalizing index with
  | nil => exact h
  | cons gone paths ih => exact ih (nodup_deleteRows h _)

theorem mem_removes {paths : List Text} {d : Doc} (h : d ∈ (paths.foldl MemoryIndex.remove index).docs) :
    d ∈ index.docs ∧ d.file ∉ paths := by
  induction paths generalizing index with
  | nil => exact ⟨h, List.not_mem_nil⟩
  | cons gone paths ih =>
    obtain ⟨h, hnot⟩ := ih h
    obtain ⟨hold, hne⟩ := mem_deleteRows.1 h
    refine ⟨hold, fun hin => ?_⟩
    rcases List.mem_cons.1 hin with hin | hin
    · exact hne hin
    · exact hnot hin

/-! ## The files known -/

def VaultState.knownFiles (v : VaultState) : List KnownFile := v.indexed.filterMap v.known

theorem path_of_known {path : Text} {f : KnownFile} (h : v.known path = some f) : f.path = path := by
  obtain ⟨file, -, rfl⟩ := Option.map_eq_some_iff.1 h
  rfl

theorem mem_knownFiles {f : KnownFile} : f ∈ v.knownFiles ↔ f.path ∈ v.indexed ∧ v.known f.path = some f := by
  simp only [VaultState.knownFiles, List.mem_filterMap]
  constructor
  · intro h
    obtain ⟨path, hpath, hknown⟩ := h
    have heq := path_of_known hknown
    subst heq
    exact ⟨hpath, hknown⟩
  · intro h
    exact ⟨f.path, h.1, h.2⟩

theorem known_of_mem_indexed {path : Text} (h : path ∈ v.indexed) : ∃ f ∈ v.knownFiles, f.path = path := by
  have hmem : path ∈ v.files.map (·.1) :=
    (List.mem_filter.1 ((sort_perm _).mem_iff.1 (List.mem_filter.1 h).1)).1
  obtain ⟨entry, hentry, hpath⟩ := List.mem_map.1 hmem
  have hfile : ∃ f, v.known path = some f := by
    unfold VaultState.known VaultState.file
    cases hfind : v.files.find? (·.1 = path) with
    | some e => exact ⟨_, rfl⟩
    | none =>
      rw [List.find?_eq_none] at hfind
      exact absurd (by simpa using hpath) (hfind entry hentry)
  obtain ⟨f, hf⟩ := hfile
  have heq := path_of_known hf
  subst heq
  exact ⟨f, mem_knownFiles.2 ⟨h, hf⟩, rfl⟩

theorem indexed_nodup (v : VaultState) : v.indexed.Nodup :=
  ((sort_perm _).nodup_iff.2 (v.nodup.filter _)).filter _

theorem knownFiles_inj {f g : KnownFile} (hf : f ∈ v.knownFiles) (hg : g ∈ v.knownFiles) (h : f.path = g.path) :
    f = g := by
  have hf' := (mem_knownFiles.1 hf).2
  rw [h, (mem_knownFiles.1 hg).2] at hf'
  exact (Option.some.inj hf').symm

theorem knownFiles_nodup (v : VaultState) : (v.knownFiles.map (·.path)).Nodup := by
  have hnodup : v.knownFiles.Nodup := by
    refine (indexed_nodup v).filterMap fun p q f hp hq => ?_
    rw [← path_of_known hp, ← path_of_known hq]
  exact hnodup.map_on fun f hf g hg h => knownFiles_inj hf hg h

theorem mem_upsertFile {files : List KnownFile} {file g : KnownFile} :
    g ∈ upsertFile files file ↔ g = file ∨ g ∈ files ∧ g.path ≠ file.path := by
  unfold upsertFile
  split
  next hany =>
    obtain ⟨f, hf, hpath⟩ := List.any_eq_true.1 hany
    simp only [decide_eq_true_eq] at hpath
    simp only [List.mem_map]
    constructor
    · intro h
      obtain ⟨e, he, rfl⟩ := h
      split
      next => exact Or.inl rfl
      next hne => exact Or.inr ⟨he, hne⟩
    · intro h
      rcases h with rfl | ⟨hg, hne⟩
      · exact ⟨f, hf, if_pos hpath⟩
      · exact ⟨g, hg, if_neg hne⟩
  next hany =>
    simp only [List.mem_append, List.mem_singleton]
    constructor
    · intro h
      rcases h with h | h
      · exact Or.inr ⟨h, fun hpath => hany (List.any_eq_true.2 ⟨g, h, decide_eq_true hpath⟩)⟩
      · exact Or.inl h
    · intro h
      rcases h with h | h
      · exact Or.inr h
      · exact Or.inl h.1

theorem nodup_upsertFile {files : List KnownFile} (h : (files.map (·.path)).Nodup) (file : KnownFile) :
    ((upsertFile files file).map (·.path)).Nodup := by
  unfold upsertFile
  split
  next =>
    have hsame : (files.map fun f => if f.path = file.path then file else f).map (·.path) = files.map (·.path) := by
      rw [List.map_map]
      refine List.map_congr_left fun f _ => ?_
      simp only [Function.comp_apply]
      split
      next heq => exact heq.symm
      next => rfl
    rw [hsame]
    exact h
  next hany =>
    rw [List.map_append]
    refine List.nodup_append.2 ⟨h, List.nodup_singleton _, ?_⟩
    intro p hp q hq heq
    obtain ⟨f, hf, rfl⟩ := List.mem_map.1 hp
    rw [List.map_singleton, List.mem_singleton] at hq
    exact hany (List.any_eq_true.2 ⟨f, hf, decide_eq_true (heq.trans hq)⟩)

theorem files_writes {files : List KnownFile} (hfiles : (files.map (·.path)).Nodup) {g : KnownFile} :
    g ∈ (files.foldl (MemoryIndex.write lib v) index).files ↔
      g ∈ files ∨ g ∈ index.files ∧ g.path ∉ files.map (·.path) := by
  induction files generalizing index with
  | nil => simp
  | cons file files ih =>
    rw [List.map_cons, List.nodup_cons] at hfiles
    rw [List.foldl_cons, ih hfiles.2, MemoryIndex.write, mem_upsertFile, List.map_cons, List.mem_cons, List.mem_cons,
      not_or]
    constructor
    · intro h
      rcases h with h | ⟨rfl | h, hnot⟩
      · exact Or.inl (Or.inr h)
      · exact Or.inl (Or.inl rfl)
      · exact Or.inr ⟨h.1, h.2, hnot⟩
    · intro h
      rcases h with (rfl | h) | ⟨h, hne, hnot⟩
      · exact Or.inr ⟨Or.inl rfl, hfiles.1⟩
      · exact Or.inl h
      · exact Or.inr ⟨Or.inr ⟨h, hne⟩, hnot⟩

theorem files_writes_nodup {files : List KnownFile} (h : (index.files.map (·.path)).Nodup) :
    ((files.foldl (MemoryIndex.write lib v) index).files.map (·.path)).Nodup := by
  induction files generalizing index with
  | nil => exact h
  | cons file files ih => exact ih (nodup_upsertFile h file)

theorem files_removes (paths : List Text) {g : KnownFile} :
    g ∈ (paths.foldl MemoryIndex.remove index).files ↔ g ∈ index.files ∧ g.path ∉ paths := by
  induction paths generalizing index with
  | nil => simp
  | cons gone paths ih =>
    rw [List.foldl_cons, ih, MemoryIndex.remove, deleteFile, List.mem_filter, List.mem_cons, not_or]
    simp only [decide_eq_true_eq, and_assoc]

theorem files_removes_nodup {paths : List Text} (h : (index.files.map (·.path)).Nodup) :
    ((paths.foldl MemoryIndex.remove index).files.map (·.path)).Nodup := by
  induction paths generalizing index with
  | nil => exact h
  | cons gone paths ih => exact ih (h.sublist (List.filter_sublist.map _))

/-! ## Updates -/

/-- A row once its lineage is brought up to date. -/
def settle (stale : List Stale) (d : Doc) : Doc :=
  match stale.find? (·.rowid = d.rowid) with
  | none => d
  | some s => { d with lineage := s.lineage, filed := s.filed }

theorem updates_eq {stale : List Stale} (h : (stale.map (·.rowid)).Nodup) (docs : List Doc) :
    stale.foldl updateRow docs = docs.map (settle stale) := by
  induction stale generalizing docs with
  | nil => exact (List.map_id'' (fun _ => rfl) docs).symm
  | cons s stale ih =>
    rw [List.map_cons, List.nodup_cons] at h
    rw [List.foldl_cons, ih h.2, updateRow, List.map_map]
    refine List.map_congr_left fun d _ => ?_
    simp only [Function.comp_apply, settle, List.find?_cons]
    by_cases heq : d.rowid = s.rowid
    · have hnone : stale.find? (·.rowid = d.rowid) = none := by
        refine List.find?_eq_none.2 fun t ht hid => ?_
        rw [decide_eq_true_eq, heq] at hid
        exact h.1 (hid ▸ List.mem_map_of_mem ht)
      rw [if_pos heq, hnone]
      simp [heq]
    · rw [if_neg heq]
      simp [Ne.symm heq]

theorem draft_settle (stale : List Stale) (d : Doc) : (settle stale d).draft = d.draft := by
  unfold settle
  split <;> rfl

theorem rowid_settle (stale : List Stale) (d : Doc) : (settle stale d).rowid = d.rowid := by
  unfold settle
  split <;> rfl

theorem mem_relineage {skip : List Text} {s : Stale} : s ∈ index.relineage lib w skip ↔
    ∃ d ∈ index.docs, d.file ∉ skip ∧ d.placing ≠ lineageResolver lib w d.kind d.path ∧
      s.toPlacing = lineageResolver lib w d.kind d.path ∧ s.rowid = d.rowid := by
  simp only [MemoryIndex.relineage, List.mem_filterMap]
  constructor
  · intro h
    obtain ⟨d, hd, h⟩ := h
    split at h
    next => cases h
    next hcond =>
      cases h
      simp only [List.contains_eq_mem, decide_eq_true_eq, not_or] at hcond
      refine ⟨d, hd, hcond.1, fun hplacing => hcond.2 ?_, rfl, rfl⟩
      rw [← hplacing]
      exact ⟨rfl, rfl⟩
  · intro h
    obtain ⟨d, hd, hskip, hmoved, hplacing, hid⟩ := h
    refine ⟨d, hd, ?_⟩
    rw [if_neg]
    · rw [Option.some_inj]
      cases s
      simp only at hplacing hid
      rw [← hplacing, ← hid]
    · simp only [List.contains_eq_mem, decide_eq_true_eq, not_or]
      refine ⟨hskip, fun h => hmoved ?_⟩
      exact (Placing.mk.injEq _ _ _ _).mpr ⟨h.1.symm, h.2.symm⟩

theorem relineage_nodup (h : (rowids index.docs).Nodup) (skip : List Text) :
    ((index.relineage lib w skip).map (·.rowid)).Nodup := by
  refine h.sublist ?_
  unfold MemoryIndex.relineage rowids
  induction index.docs with
  | nil => exact List.Sublist.refl _
  | cons d docs ih =>
    rw [List.filterMap_cons]
    split
    next => exact ih.cons _
    next heq =>
      dsimp only at heq
      split at heq
      next => cases heq
      next =>
        cases heq
        exact ih.cons_cons _

/-! ## What the index always holds -/

/-- The index knows the files of a vault, and has the rows of each, up to their place in the tree. -/
structure Tracks (lib : Library) (index : MemoryIndex) (v : VaultState) : Prop where
  rowids : (rowids index.docs).Nodup
  paths : (index.files.map (·.path)).Nodup
  known : ∀ f, f ∈ index.files ↔ f ∈ v.knownFiles
  drafts : ∀ path, drafts index.docs path = if path ∈ v.indexed then rowsOf lib v path else []

/-- Every file that has another text than before has another time or size. -/
def Edited (v w : VaultState) : Prop :=
  ∀ f ∈ v.files, ∀ g ∈ w.files, f.1 = g.1 → f.2.mtimeMs = g.2.mtimeMs → f.2.size = g.2.size →
    f.2.content = g.2.content

theorem read_of_known {path : Text} {f : KnownFile} (h : Edited v w) (hv : v.known path = some f)
    (hw : w.known path = some f) : v.read path = w.read path := by
  obtain ⟨file, hfile, rfl⟩ := Option.map_eq_some_iff.1 hv
  obtain ⟨other, hother, heq⟩ := Option.map_eq_some_iff.1 hw
  simp only [KnownFile.mk.injEq, true_and] at heq
  rw [VaultState.read, VaultState.read, hfile, hother, Option.bind_some, Option.bind_some]
  obtain ⟨e, he, rfl⟩ := Option.map_eq_some_iff.1 hfile
  obtain ⟨g, hg, rfl⟩ := Option.map_eq_some_iff.1 hother
  have hpath : e.1 = g.1 := by
    have hep := List.find?_some he
    have hgp := List.find?_some hg
    simp only [decide_eq_true_eq] at hep hgp
    rw [hep, hgp]
  exact h e (List.mem_of_find?_eq_some he) g (List.mem_of_find?_eq_some hg) hpath heq.1.symm heq.2.symm

theorem rowsOf_congr {path : Text} (h : v.read path = w.read path) : rowsOf lib v path = rowsOf lib w path := by
  rw [rowsOf, rowsOf, h]

/-! ## The transaction -/

theorem mem_changed {full : Bool} {f : KnownFile} : f ∈ index.changed full w ↔
    f ∈ w.knownFiles ∧ (full = true ∨ index.files.find? (·.path = f.path) ≠ some f) := by
  simp only [MemoryIndex.changed, VaultState.knownFiles, List.mem_filter, Bool.or_eq_true, decide_eq_true_eq]

theorem changed_nodup (full : Bool) : ((index.changed full w).map (·.path)).Nodup :=
  (knownFiles_nodup w).sublist (List.filter_sublist.map _)

theorem mem_changed_paths {full : Bool} {f : KnownFile} (hf : f ∈ w.knownFiles) :
    f.path ∈ (index.changed full w).map (·.path) ↔ f ∈ index.changed full w := by
  constructor
  · intro h
    obtain ⟨g, hg, heq⟩ := List.mem_map.1 h
    rw [knownFiles_inj hf (mem_changed.1 hg).1 heq.symm]
    exact hg
  · exact List.mem_map_of_mem

/-- A file found under its path is in the table, and the other way round. -/
theorem find?_files (h : (index.files.map (·.path)).Nodup) {f : KnownFile} :
    index.files.find? (·.path = f.path) = some f ↔ f ∈ index.files := by
  constructor
  · exact List.mem_of_find?_eq_some
  · intro hf
    cases hfind : index.files.find? (·.path = f.path) with
    | none => exact absurd (decide_eq_true rfl) (List.find?_eq_none.1 hfind f hf)
    | some g =>
      have hg := List.mem_of_find?_eq_some hfind
      have hpath := List.find?_some hfind
      simp only [decide_eq_true_eq] at hpath
      rw [List.inj_on_of_nodup_map h hg hf hpath]

theorem mem_removed {full : Bool} {path : Text} : path ∈ index.removed full w ↔
    path ∈ index.files.map (·.path) ∧ (full = true ∨ path ∉ w.indexed) := by
  simp only [MemoryIndex.removed, List.mem_filter, Bool.or_eq_true, Bool.not_eq_true', List.contains_eq_mem,
    decide_eq_false_iff_not]

theorem files_replace (h : (index.files.map (·.path)).Nodup) (f : KnownFile) :
    f ∈ (index.replace lib false w).files ↔ f ∈ w.knownFiles := by
  rw [MemoryIndex.replace, files_writes (changed_nodup false), files_removes, cond_false, mem_removed]
  simp only [Bool.false_eq_true, false_or]
  constructor
  · intro hf
    rcases hf with hf | ⟨⟨hf, hkept⟩, hsame⟩
    · exact (mem_changed.1 hf).1
    · have hin : f.path ∈ w.indexed := by
        by_contra hnot
        exact hkept ⟨List.mem_map_of_mem hf, hnot⟩
      obtain ⟨g, hg, hpath⟩ := known_of_mem_indexed hin
      rw [← hpath, mem_changed_paths hg, mem_changed, not_and] at hsame
      have hfind := hsame hg
      rw [not_or, not_not, find?_files h] at hfind
      rw [← List.inj_on_of_nodup_map h hfind.2 hf hpath]
      exact hg
  · intro hf
    by_cases hchanged : f ∈ index.changed false w
    · exact Or.inl hchanged
    · have hin := hchanged
      rw [mem_changed, not_and] at hin
      have hfind := hin hf
      rw [not_or, not_not, find?_files h] at hfind
      refine Or.inr ⟨⟨hfind.2, fun hgone => hgone.2 (mem_knownFiles.1 hf).1⟩, ?_⟩
      rw [mem_changed_paths hf]
      exact hchanged

theorem Tracks.replace (h : Tracks lib index v) (he : Edited v w) : Tracks lib (index.replace lib false w) w where
  rowids := nodup_writes (nodup_removes h.rowids)
  paths := files_writes_nodup (files_removes_nodup h.paths)
  known := files_replace h.paths
  drafts path := by
    rw [MemoryIndex.replace, drafts_writes, drafts_removes, cond_false, h.drafts]
    by_cases hin : path ∈ w.indexed
    · rw [if_pos hin]
      split
      next => rfl
      next hsame =>
        obtain ⟨f, hf, rfl⟩ := known_of_mem_indexed hin
        rw [mem_changed_paths hf, mem_changed, not_and] at hsame
        have hfind := hsame hf
        rw [not_or, not_not, find?_files h.paths, h.known] at hfind
        have hold := mem_knownFiles.1 hfind.2
        rw [if_neg fun hgone => (mem_removed.1 hgone).2.elim Bool.false_ne_true (fun hnot => hnot hin),
          if_pos hold.1]
        exact rowsOf_congr (read_of_known he hold.2 (mem_knownFiles.1 hf).2)
    · rw [if_neg hin, if_neg]
      · split
        next => rfl
        next hkept =>
          rw [if_neg]
          intro hold
          obtain ⟨f, hf, rfl⟩ := known_of_mem_indexed hold
          exact hkept (mem_removed.2 ⟨List.mem_map_of_mem ((h.known f).2 hf), Or.inr hin⟩)
      · intro hchanged
        obtain ⟨f, hf, rfl⟩ := List.mem_map.1 hchanged
        exact hin (mem_knownFiles.1 (mem_changed.1 hf).1).1

theorem stale_nodup (h : (Vault.rowids index.docs).Nodup) (full : Bool) :
    ((index.stale lib full w).map (·.rowid)).Nodup := by
  cases full with
  | true => exact List.nodup_nil
  | false => exact relineage_nodup h _

theorem replace_quiet (hchanged : index.changed false w = []) (hremoved : index.removed false w = []) :
    index.replace lib false w = index := by
  rw [MemoryIndex.replace, hchanged, hremoved]
  rfl

theorem refresh_quiet (hchanged : index.changed false w = []) (hremoved : index.removed false w = []) :
    index.refresh lib w = index := by
  rw [MemoryIndex.refresh, MemoryIndex.sync, if_pos ⟨rfl, hchanged, hremoved⟩]

theorem refresh_busy (h : (rowids index.docs).Nodup)
    (hbusy : ¬(index.changed false w = [] ∧ index.removed false w = [])) : index.refresh lib w =
      { index.replace lib false w with
        docs := (index.replace lib false w).docs.map (settle (index.stale lib false w)) } := by
  rw [MemoryIndex.refresh, MemoryIndex.sync, if_neg fun hquiet => hbusy hquiet.2]
  simp only [updates_eq (stale_nodup h false)]

/-- **A refresh keeps the index on the vault's files and their rows**, whatever it does to their lineage. -/
theorem Tracks.refresh (h : Tracks lib index v) (he : Edited v w) : Tracks lib (index.refresh lib w) w := by
  have hreplace := h.replace he
  by_cases hquiet : index.changed false w = [] ∧ index.removed false w = []
  · rw [refresh_quiet hquiet.1 hquiet.2]
    rw [replace_quiet hquiet.1 hquiet.2] at hreplace
    exact hreplace
  · rw [refresh_busy h.rowids hquiet]
    refine ⟨?_, hreplace.paths, hreplace.known, fun path => ?_⟩
    · have hids : Vault.rowids ((index.replace lib false w).docs.map (settle (index.stale lib false w))) =
          Vault.rowids (index.replace lib false w).docs := by
        rw [Vault.rowids, List.map_map]
        exact List.map_congr_left fun d _ => rowid_settle _ d
      rw [hids]
      exact hreplace.rowids
    · have hdrafts : Vault.drafts ((index.replace lib false w).docs.map (settle (index.stale lib false w))) path =
          Vault.drafts (index.replace lib false w).docs path := by
        rw [Vault.drafts, List.map_map]
        exact congrArg _ (List.map_congr_left fun d _ => draft_settle _ d)
      rw [hdrafts]
      exact hreplace.drafts path

/-! ## Agreement with a rebuild -/

/-- Every row carries the place derived from a vault. -/
def Placed (lib : Library) (v : VaultState) (index : MemoryIndex) : Prop :=
  ∀ d ∈ index.docs, d.placing = lineageResolver lib v d.kind d.path

/-- The rows are those of a rebuild. -/
def Agrees (lib : Library) (v : VaultState) (index : MemoryIndex) : Prop :=
  (index.docs.map (·.toRow)).Perm ((index.rebuild lib v).docs.map (·.toRow))

theorem toRow_of_placed (h : Placed lib v index) :
    index.docs.map (·.toRow) = (index.docs.map Doc.draft).map (RowDraft.resolve lib v) := by
  rw [List.map_map]
  refine List.map_congr_left fun d hd => ?_
  have hplacing := h d hd
  simp only [Doc.placing] at hplacing
  simp only [Function.comp_apply, RowDraft.resolve, Doc.draft, ← hplacing]

/-- Tables with the same rows of each file have the same rows. -/
theorem perm_of_drafts {docs others : List Doc} (h : ∀ path, drafts docs path = drafts others path) :
    (docs.map Doc.draft).Perm (others.map Doc.draft) := by
  rw [List.perm_iff_count]
  intro draft
  have hcount : ∀ table : List Doc, (drafts table draft.file).count draft = (table.map Doc.draft).count draft :=
    fun table => List.count_filter (decide_eq_true rfl)
  rw [← hcount, ← hcount, h]

theorem rebuild_docs (index : MemoryIndex) (v : VaultState) : (index.rebuild lib v).docs = (index.replace lib true v).docs := by
  rw [MemoryIndex.rebuild, MemoryIndex.sync, if_neg fun h => Bool.noConfusion h.1]
  rfl

theorem placed_rebuild (index : MemoryIndex) (v : VaultState) : Placed lib v (index.rebuild lib v) := by
  intro d hd
  rw [rebuild_docs] at hd
  rcases mem_writes hd with hplacing | ⟨hold, -⟩
  · exact hplacing
  · exact absurd (mem_removes hold).1 List.not_mem_nil

theorem drafts_rebuild (index : MemoryIndex) (v : VaultState) (path : Text) :
    drafts (index.rebuild lib v).docs path = if path ∈ v.indexed then rowsOf lib v path else [] := by
  rw [rebuild_docs, MemoryIndex.replace, drafts_writes, drafts_removes, cond_true]
  have hpaths : path ∈ (index.changed true v).map (·.path) ↔ path ∈ v.indexed := by
    constructor
    · intro h
      obtain ⟨f, hf, rfl⟩ := List.mem_map.1 h
      exact (mem_knownFiles.1 (mem_changed.1 hf).1).1
    · intro h
      obtain ⟨f, hf, rfl⟩ := known_of_mem_indexed h
      exact List.mem_map_of_mem (mem_changed.2 ⟨hf, Or.inl rfl⟩)
  rw [if_congr hpaths rfl rfl]
  congr 1
  exact ite_self _

theorem agrees_iff (h : Tracks lib index v) : Agrees lib v index ↔ Placed lib v index := by
  have hdrafts : (index.docs.map Doc.draft).Perm ((index.rebuild lib v).docs.map Doc.draft) :=
    perm_of_drafts fun path => (h.drafts path).trans (drafts_rebuild index v path).symm
  constructor
  · intro hagrees d hd
    obtain ⟨e, he, heq⟩ := List.mem_map.1 (hagrees.mem_iff.1 (List.mem_map_of_mem hd))
    have hplacing := placed_rebuild index v e he
    rw [Doc.placing, heq] at hplacing
    exact hplacing
  · intro hplaced
    rw [Agrees, toRow_of_placed hplaced, toRow_of_placed (placed_rebuild index v)]
    exact hdrafts.map _

/-! ## When a refresh agrees -/

/-- What a refresh needs for its lineages to be right: when no indexed file changed, no row's place moved
all the same; and no row it leaves has the row id of a moved row that sits elsewhere. -/
structure Sound (lib : Library) (index : MemoryIndex) (w : VaultState) : Prop where
  quiet : index.changed false w = [] → index.removed false w = [] → index.relineage lib w [] = []
  reused : ∀ s ∈ index.stale lib false w, ∀ d ∈ (index.replace lib false w).docs, d.rowid = s.rowid →
    s.toPlacing = lineageResolver lib w d.kind d.path

theorem relineage_eq_nil : index.relineage lib w [] = [] ↔ Placed lib w index := by
  constructor
  · intro hnil d hd
    by_contra hmoved
    have hstale : { toPlacing := lineageResolver lib w d.kind d.path, rowid := d.rowid } ∈ index.relineage lib w [] :=
      mem_relineage.2 ⟨d, hd, List.not_mem_nil, hmoved, rfl, rfl⟩
    rw [hnil] at hstale
    cases hstale
  · intro hplaced
    refine List.eq_nil_iff_forall_not_mem.2 fun s hs => ?_
    obtain ⟨d, hd, -, hmoved, -, -⟩ := mem_relineage.1 hs
    exact hmoved (hplaced d hd)

theorem kind_path_of_draft {d e : Doc} (h : d.draft = e.draft) : d.kind = e.kind ∧ d.path = e.path :=
  ⟨congrArg RowDraft.kind h, congrArg RowDraft.path h⟩

/-- A row the refresh leaves in place and does not update sits where it should. -/
theorem placing_of_not_stale {d : Doc} (hd : d ∈ (index.replace lib false w).docs)
    (hstale : ∀ s ∈ index.stale lib false w, s.rowid ≠ d.rowid) :
    d.placing = lineageResolver lib w d.kind d.path := by
  rcases mem_writes hd with hplacing | ⟨hold, hnot⟩
  · exact hplacing
  · by_contra hmoved
    refine hstale { toPlacing := lineageResolver lib w d.kind d.path, rowid := d.rowid } ?_ rfl
    exact mem_relineage.2 ⟨d, (mem_removes hold).1, hnot, hmoved, rfl, rfl⟩

theorem placed_refresh_iff (h : (rowids index.docs).Nodup) :
    Placed lib w (index.refresh lib w) ↔ Sound lib index w := by
  by_cases hquiet : index.changed false w = [] ∧ index.removed false w = []
  · rw [refresh_quiet hquiet.1 hquiet.2, ← relineage_eq_nil]
    constructor
    · intro hnil
      refine ⟨fun _ _ => hnil, fun s hs => ?_⟩
      rw [MemoryIndex.stale, cond_false, hquiet.1, List.map_nil, hnil] at hs
      cases hs
    · intro hsound
      exact hsound.quiet hquiet.1 hquiet.2
  · rw [refresh_busy h hquiet]
    constructor
    · intro hplaced
      refine ⟨fun hchanged hremoved => absurd ⟨hchanged, hremoved⟩ hquiet, fun s hs d hd hid => ?_⟩
      have hfinal := hplaced _ (List.mem_map_of_mem hd)
      have hsame := kind_path_of_draft (draft_settle (index.stale lib false w) d)
      rw [hsame.1, hsame.2] at hfinal
      rw [← hfinal]
      have hfind : (index.stale lib false w).find? (·.rowid = d.rowid) = some s := by
        cases hfind : (index.stale lib false w).find? (·.rowid = d.rowid) with
        | none => exact absurd (decide_eq_true hid.symm) (List.find?_eq_none.1 hfind s hs)
        | some t =>
          have htid := List.find?_some hfind
          simp only [decide_eq_true_eq] at htid
          rw [List.inj_on_of_nodup_map (stale_nodup h false) (List.mem_of_find?_eq_some hfind) hs (htid.trans hid)]
      simp only [settle, hfind]
      rfl
    · intro hsound d hd
      obtain ⟨e, he, rfl⟩ := List.mem_map.1 hd
      have hsame := kind_path_of_draft (draft_settle (index.stale lib false w) e)
      rw [hsame.1, hsame.2]
      unfold settle
      split
      next hnone =>
        refine placing_of_not_stale he fun s hs hid => ?_
        exact absurd (decide_eq_true hid) (List.find?_eq_none.1 hnone s hs)
      next s hfind =>
        have hid := List.find?_some hfind
        simp only [decide_eq_true_eq] at hid
        exact hsound.reused s (List.mem_of_find?_eq_some hfind) e he hid.symm

/-! ## Runs -/

def emptyVault : VaultState := ⟨[], List.nodup_nil⟩

/-- A refresh after each of the states of a vault, from an empty index. -/
def refreshAll (lib : Library) (vaults : List VaultState) : MemoryIndex :=
  vaults.foldl (fun index v => index.refresh lib v) {}

theorem tracks_empty : Tracks lib {} emptyVault where
  rowids := List.nodup_nil
  paths := List.nodup_nil
  known _ := Iff.rfl
  drafts _ := rfl

theorem tracks_refreshAll (lib : Library) {vaults : List VaultState} (h : vaults.IsChain Edited) :
    Tracks lib (refreshAll lib vaults) (vaults.getLast?.getD emptyVault) := by
  induction vaults using List.reverseRecOn with
  | nil => exact tracks_empty
  | append_singleton before w ih =>
    rw [List.isChain_append] at h
    rw [refreshAll, List.foldl_append, List.getLast?_concat]
    refine (ih h.1).refresh ?_
    cases hlast : before.getLast? with
    | none =>
      intro f hf
      cases hf
    | some v => exact h.2.2 v hlast w rfl

/-- **The incremental index refines the rebuild**: in every run of refreshes the rows are those of a rebuild
after each of them, if and only if each refresh is sound. -/
theorem refreshAll_agrees_iff (lib : Library) (vaults : List VaultState) (h : vaults.IsChain Edited) :
    (∀ before w later, vaults = before ++ w :: later → Agrees lib w (refreshAll lib (before ++ [w]))) ↔
      ∀ before w later, vaults = before ++ w :: later → Sound lib (refreshAll lib before) w := by
  have hstep : ∀ before w later, vaults = before ++ w :: later →
      (Agrees lib w (refreshAll lib (before ++ [w])) ↔ Sound lib (refreshAll lib before) w) := by
    intro before w later hvaults
    have hchain : (before ++ [w]).IsChain Edited := by
      rw [hvaults, List.append_cons] at h
      exact (List.isChain_append.1 h).1
    have htracks := tracks_refreshAll lib hchain
    rw [List.getLast?_concat, Option.getD_some] at htracks
    have hbefore := tracks_refreshAll lib (List.isChain_append.1 hchain).1
    rw [agrees_iff htracks, ← placed_refresh_iff hbefore.rowids, refreshAll, List.foldl_append]
    rfl
  constructor
  · intro hagrees before w later hvaults
    exact (hstep before w later hvaults).1 (hagrees before w later hvaults)
  · intro hsound before w later hvaults
    exact (hstep before w later hvaults).2 (hsound before w later hvaults)

/-! ## A page renamed -/

/-- A YAML library that reads frontmatter of plain `key: value` lines. -/
def plainYaml : Yaml where
  parse t := some (.map (((lines t).filterMap (cut ": ".toList)).map fun e => (e.1, .str e.2)))
  stringify _ := []

def plainLibrary : Library where
  yaml := plainYaml
  toLowerCase := List.map Char.toLower
  localeLe := le

def houseFiles : List (Text × File) :=
  [("Tree.md".toList,
      { content := some "## Working memory\n- House | working | [[Projects/House]] | Where to live".toList
        mtimeMs := 1, size := 70 }),
    ("Projects/House.md".toList,
      { content := some "---\ntitle: House\nparent: Tree\n---\nHouse".toList, mtimeMs := 1, size := 44 })]

def visits (path : String) : Text × File :=
  (path.toList,
    { content := some "---\ntitle: Visits\nparent: Projects/House\n---\nSaturdays".toList, mtimeMs := 2, size := 60 })

def houseVault : VaultState := ⟨houseFiles, by decide⟩

def houseVaultWith (path : String) (h : path.toList ∉ houseFiles.map (·.1)) : VaultState where
  files := houseFiles ++ [visits path]
  nodup := by
    rw [List.map_append]
    refine List.nodup_append.2 ⟨by decide, List.nodup_singleton _, fun p hp q hq => ?_⟩
    rw [List.map_singleton, List.mem_singleton] at hq
    intro heq
    rw [heq, hq] at hp
    exact h hp

def withVisits : VaultState := houseVaultWith "Notes/Visits.md" (by decide)

/-- The page under another name. -/
def withViewings : VaultState := houseVaultWith "Notes/Viewings.md" (by decide)

theorem refreshAll_agrees_added : Agrees plainLibrary withVisits (refreshAll plainLibrary [houseVault, withVisits]) := by
  refine (refreshAll_agrees_iff plainLibrary [houseVault, withVisits] ?_).2 ?_ [houseVault] withVisits [] rfl
  · exact .cons_cons (by unfold Edited; decide) (.singleton _)
  · intro before w later h
    cases before with
    | nil =>
      cases h
      exact ⟨by decide +kernel, by decide +kernel⟩
    | cons v before =>
      cases before with
      | nil =>
        cases h
        exact ⟨by decide +kernel, by decide +kernel⟩
      | cons u before =>
        have hlength := congrArg List.length h
        simp only [List.length_cons, List.length_append, List.length_nil] at hlength
        omega

/-- **A page renamed**: its new row takes the row id of the old one, and with it the empty lineage of a page
that is gone. -/
theorem renamed_page_unplaced : [houseVault, withVisits, withViewings].IsChain Edited ∧
    ¬Agrees plainLibrary withViewings (refreshAll plainLibrary [houseVault, withVisits, withViewings]) := by
  refine ⟨.cons_cons (by unfold Edited; decide) (.cons_cons (by unfold Edited; decide) (.singleton _)), ?_⟩
  unfold Agrees
  decide +kernel

end Zenod.Vault
