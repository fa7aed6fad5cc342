/-
The envelopes of a SQLite file and what writing them anew does to it.

A `Resealing` gives every envelope another value where it stands. It changes
neither how many there are nor what the known stores name them, and the
transaction of a file is one (`Plan.write_eq`).
-/
import Zenod.Chassis.Rekey

namespace Zenod.Chassis

open Text Keyed

/-! ## Envelopes -/

/-- The envelopes of the columns that the scan counts. -/
def DataFile.envelopes (f : DataFile) : List (Loc × Text) :=
  f.quotedTables.flatMap fun t => t.columns.flatMap fun column => t.rows.rows.filterMap fun row =>
    (envelope? (row.cell column)).map fun value => (⟨t.name, column, row.rowid⟩, value)

theorem length_envelopes (f : DataFile) : f.envelopes.length = f.countEnvelopes := by
  simp only [DataFile.envelopes, DataFile.countEnvelopes, List.length_flatMap, List.length_filterMap_eq_countP,
    Option.isSome_map, Table.count]

theorem mem_envelopes {f : DataFile} {loc : Loc} {value : Text} : (loc, value) ∈ f.envelopes ↔
    ∃ t ∈ f.quotedTables, t.name = loc.table ∧ loc.column ∈ t.columns ∧
      ∃ row ∈ t.rows.rows, row.rowid = loc.rowid ∧ envelope? (row.cell loc.column) = some value := by
  simp only [DataFile.envelopes, List.mem_flatMap, List.mem_filterMap, Option.map_eq_some_iff, Prod.mk.injEq]
  constructor
  · rintro ⟨t, ht, column, hcolumn, row, hrow, value', hvalue, rfl, rfl⟩
    exact ⟨t, ht, rfl, hcolumn, row, hrow, rfl, hvalue⟩
  · rintro ⟨t, ht, hname, hcolumn, row, hrow, hrowid, hvalue⟩
    exact ⟨t, ht, loc.column, hcolumn, row, hrow, value, hvalue, by rw [hname, hrowid], rfl⟩

theorem nodup_rowids (t : SqlTable) : (t.rows.rows.map SqlRow.rowid).Nodup := by
  refine List.pairwise_map.2 (t.rows.unique.imp fun {a b} h => ?_)
  simpa [clash] using h

theorem isEnvelope_of_mem {f : DataFile} {loc : Loc} {value : Text} (h : (loc, value) ∈ f.envelopes) :
    isEnvelope value = true := by
  obtain ⟨t, -, -, -, row, -, -, hvalue⟩ := mem_envelopes.1 h
  cases hcell : row.cell loc.column with
  | other =>
    rw [hcell] at hvalue
    cases hvalue
  | text t =>
    rw [hcell, envelope?] at hvalue
    split at hvalue
    next ht =>
      injection hvalue with hvalue
      rwa [← hvalue]
    next => cases hvalue

/-! ## Envelopes that known stores name -/

/-- The columns that hold names. -/
def nameColumns : List Text := [keyColumn, tenantIdColumn, settingKeyColumn]

/-- Places of envelopes of the file, no place twice. -/
structure RefsOf (f : DataFile) (refs : List EnvelopeRef) : Prop where
  mem : ∀ ref ∈ refs, (ref.loc, ref.value) ∈ f.envelopes
  nodup : (refs.map EnvelopeRef.loc).Nodup
  column : ∀ ref ∈ refs, ref.loc.column ∉ nameColumns

theorem rowRefs_mem {table column keyColumn : Text} {rows : List SqlRow} {refs : List EnvelopeRef}
    (h : rowRefs table column keyColumn rows = .ok refs) : ∀ ref ∈ refs, ref.loc.table = table ∧
      ref.loc.column = column ∧ ∃ row ∈ rows, row.rowid = ref.loc.rowid ∧ envelope? (row.cell column) = some ref.value := by
  induction rows generalizing refs with
  | nil =>
    obtain rfl : [] = refs := by simpa [rowRefs] using h
    exact nofun
  | cons row rows ih =>
    rw [rowRefs] at h
    split at h
    next =>
      intro ref href
      obtain ⟨htable, hcolumn, r, hr, hrow⟩ := ih h ref href
      exact ⟨htable, hcolumn, r, List.mem_cons_of_mem row hr, hrow⟩
    next value hvalue =>
      simp only [bind_ok, pure_ok] at h
      obtain ⟨aadKey, -, rest, hrest, rfl⟩ := h
      intro ref href
      rcases List.mem_cons.1 href with rfl | href
      · exact ⟨rfl, rfl, row, List.mem_cons_self, rfl, hvalue⟩
      · obtain ⟨htable, hcolumn, r, hr, hrow⟩ := ih hrest ref href
        exact ⟨htable, hcolumn, r, List.mem_cons_of_mem row hr, hrow⟩

theorem rowRefs_nodup {table column keyColumn : Text} {rows : List SqlRow} {refs : List EnvelopeRef}
    (hrows : (rows.map SqlRow.rowid).Nodup) (h : rowRefs table column keyColumn rows = .ok refs) :
    (refs.map EnvelopeRef.loc).Nodup := by
  induction rows generalizing refs with
  | nil =>
    obtain rfl : [] = refs := by simpa [rowRefs] using h
    exact List.nodup_nil
  | cons row rows ih =>
    rw [List.map_cons, List.nodup_cons] at hrows
    rw [rowRefs] at h
    split at h
    next => exact ih hrows.2 h
    next value hvalue =>
      simp only [bind_ok, pure_ok] at h
      obtain ⟨aadKey, -, rest, hrest, rfl⟩ := h
      refine List.nodup_cons.2 ⟨fun hmem => ?_, ih hrows.2 hrest⟩
      obtain ⟨ref, href, hloc⟩ := List.mem_map.1 hmem
      obtain ⟨-, -, r, hr, hrowid, -⟩ := rowRefs_mem hrest ref href
      rw [hloc] at hrowid
      exact hrows.1 (List.mem_map.2 ⟨r, hr, hrowid⟩)

variable {f : DataFile}

theorem query_ok {table : Text} {columns : List Text} {select : SqlTable → Except Text (List EnvelopeRef)}
    {refs : List EnvelopeRef} (h : f.query table columns select = .ok refs) :
    refs = [] ∨ ∃ t ∈ f.quotedTables, t.name = table ∧ (∀ column ∈ columns, column ∈ t.columns) ∧ select t = .ok refs := by
  unfold DataFile.query at h
  split at h
  next =>
    rw [pure_ok] at h
    exact .inl h.symm
  next t hfind =>
    split at h
    next hcolumns =>
      have hname := List.find?_some hfind
      refine .inr ⟨t, List.mem_of_find?_eq_some hfind, by simpa using hname, fun column hcolumn => ?_, h⟩
      simpa using List.all_eq_true.1 hcolumns column hcolumn
    next => cases h

/-- What a query finds in one column of one table. -/
structure StoreRefs (f : DataFile) (table column : Text) (refs : List EnvelopeRef) : Prop where
  mem : ∀ ref ∈ refs, (ref.loc, ref.value) ∈ f.envelopes
  nodup : (refs.map EnvelopeRef.loc).Nodup
  table : ∀ ref ∈ refs, ref.loc.table = table
  column : ∀ ref ∈ refs, ref.loc.column = column

theorem StoreRefs.nil (f : DataFile) (table column : Text) : StoreRefs f table column [] :=
  ⟨nofun, List.nodup_nil, nofun, nofun⟩

theorem storeRefs_rows {table column keyColumn : Text} {columns : List Text} {p : SqlRow → Bool}
    {refs : List EnvelopeRef} (hcolumn : column ∈ columns)
    (h : f.query table columns (fun t => rowRefs table column keyColumn (t.rows.rows.filter p)) = .ok refs) :
    StoreRefs f table column refs := by
  rcases query_ok h with rfl | ⟨t, ht, hname, hcolumns, hrefs⟩
  · exact .nil f table column
  · refine ⟨fun ref href => ?_, ?_, fun ref href => (rowRefs_mem hrefs ref href).1,
      fun ref href => (rowRefs_mem hrefs ref href).2.1⟩
    · obtain ⟨htable, hcol, row, hrow, hrowid, hvalue⟩ := rowRefs_mem hrefs ref href
      refine mem_envelopes.2 ⟨t, ht, by rw [hname, htable], by rw [hcol]; exact hcolumns column hcolumn, row,
        (List.mem_filter.1 hrow).1, hrowid, by rw [hcol]; exact hvalue⟩
    · exact rowRefs_nodup ((nodup_rowids t).sublist (List.filter_sublist.map _)) hrefs

theorem storeRefs_verifier {table column keyColumn name aadKey : Text} {columns : List Text} {refs : List EnvelopeRef}
    (hcolumn : column ∈ columns)
    (h : f.query table columns (fun t => pure (verifierRef table column keyColumn name aadKey t.rows.rows)) = .ok refs) :
    StoreRefs f table column refs := by
  rcases query_ok h with rfl | ⟨t, ht, hname, hcolumns, hrefs⟩
  · exact .nil f table column
  · rw [pure_ok, verifierRef] at hrefs
    split at hrefs
    next =>
      subst hrefs
      exact .nil f table column
    next row hrow =>
      split at hrefs
      next =>
        subst hrefs
        exact .nil f table column
      next value hvalue =>
        subst hrefs
        refine ⟨fun ref href => ?_, List.nodup_singleton _, fun ref href => ?_, fun ref href => ?_⟩
        · rw [List.mem_singleton] at href
          subst href
          exact mem_envelopes.2 ⟨t, ht, hname, hcolumns column hcolumn, row, List.mem_of_find?_eq_some hrow, rfl, hvalue⟩
        · rw [List.mem_singleton] at href
          rw [href]
        · rw [List.mem_singleton] at href
          rw [href]

/-- What other tables hold is added. -/
theorem StoreRefs.append {table column : Text} {refs before : List EnvelopeRef} (h : StoreRefs f table column refs)
    (hcolumn : column ∉ nameColumns) (hbefore : RefsOf f before) (htable : ∀ ref ∈ before, ref.loc.table ≠ table) :
    RefsOf f (before ++ refs) := by
  refine ⟨fun ref href => ?_, ?_, fun ref href => ?_⟩
  · exact (List.mem_append.1 href).elim (hbefore.mem ref) (h.mem ref)
  · rw [List.map_append]
    refine List.nodup_append'.2 ⟨hbefore.nodup, h.nodup, fun loc hloc hloc' => ?_⟩
    obtain ⟨ref, href, rfl⟩ := List.mem_map.1 hloc
    obtain ⟨ref', href', heq⟩ := List.mem_map.1 hloc'
    exact htable ref href (by rw [← heq, h.table ref' href'])
  · rcases List.mem_append.1 href with href | href
    · exact hbefore.column ref href
    · rw [h.column ref href]
      exact hcolumn

theorem RefsOf.nil (f : DataFile) : RefsOf f [] := ⟨nofun, List.nodup_nil, nofun⟩

theorem knownEnvelopes_refsOf {tenantId : Text} {refs : List EnvelopeRef} (h : knownEnvelopes f tenantId = .ok refs) :
    RefsOf f refs := by
  simp only [knownEnvelopes, bind_ok, pure_ok] at h
  obtain ⟨entries, hentries, verifier, hverifier, settings, hsettings, settingsVerifier, hsettingsVerifier, rfl⟩ := h
  have hentries := storeRefs_rows (by simp) hentries
  have hverifier := storeRefs_verifier (by simp) hverifier
  have hsettings : StoreRefs f tenantSettings storedValue settings := by
    have hall : f.query tenantSettings [settingKeyColumn, storedValue] (fun t =>
        rowRefs tenantSettings storedValue settingKeyColumn (t.rows.rows.filter fun _ => true)) = .ok settings := by
      simpa using hsettings
    exact storeRefs_rows (by simp) hall
  have hsettingsVerifier := storeRefs_verifier (by simp) hsettingsVerifier
  have h₁ := hentries.append (by decide) (.nil f) fun _ href => absurd href List.not_mem_nil
  have h₂ := hverifier.append (by decide) h₁ fun ref href => by
    rw [hentries.table ref href]
    decide
  have h₃ := hsettings.append (by decide) h₂ fun ref href => by
    rcases List.mem_append.1 href with href | href
    · rw [hentries.table ref href]
      decide
    · rw [hverifier.table ref href]
      decide
  refine hsettingsVerifier.append (by decide) h₃ fun ref href => ?_
  rcases List.mem_append.1 href with href | href
  · rcases List.mem_append.1 href with href | href
    · rw [hentries.table ref href]
      decide
    · rw [hverifier.table ref href]
      decide
  · rw [hsettings.table ref href]
    decide

theorem knownRefs_refsOf {refs : List EnvelopeRef} (h : f.knownRefs = .ok refs) : RefsOf f refs := by
  unfold DataFile.knownRefs at h
  split at h
  · exact knownEnvelopes_refsOf h
  · rw [pure_ok] at h
    exact h ▸ .nil f

namespace RefsOf

variable {refs : List EnvelopeRef}

theorem isEnvelope (h : RefsOf f refs) : ∀ ref ∈ refs, Chassis.isEnvelope ref.value = true :=
  fun ref href => isEnvelope_of_mem (h.mem ref href)

theorem nodup_pairs (h : RefsOf f refs) : (refs.map fun ref => (ref.loc, ref.value)).Nodup := by
  have hmap : (refs.map fun ref => (ref.loc, ref.value)).map Prod.fst = refs.map EnvelopeRef.loc := by
    rw [List.map_map]
    rfl
  exact List.Nodup.of_map Prod.fst (by rw [hmap]; exact h.nodup)

theorem subperm (h : RefsOf f refs) : List.Subperm (refs.map fun ref => (ref.loc, ref.value)) f.envelopes := by
  refine List.subperm_of_subset h.nodup_pairs fun pair hpair => ?_
  obtain ⟨ref, href, rfl⟩ := List.mem_map.1 hpair
  exact h.mem ref href

theorem length_le (h : RefsOf f refs) : refs.length ≤ f.countEnvelopes := by
  have := h.subperm.length_le
  rwa [List.length_map, length_envelopes] at this

/-- As many as were counted are all there are. -/
theorem cover (h : RefsOf f refs) (hlen : refs.length = f.countEnvelopes) {loc : Loc} {value : Text}
    (hmem : (loc, value) ∈ f.envelopes) : ∃ ref ∈ refs, ref.loc = loc ∧ ref.value = value := by
  have hperm := h.subperm.perm_of_length_le (by rw [List.length_map, length_envelopes, hlen])
  obtain ⟨ref, href, heq⟩ := List.mem_map.1 (hperm.mem_iff.2 hmem)
  rw [Prod.mk.injEq] at heq
  exact ⟨ref, href, heq⟩

end RefsOf

/-! ## Envelopes written anew -/

/-- Another envelope for each one; columns with names stay. -/
structure Resealing where
  value : Loc → Text → Text
  keeps : ∀ loc t, isEnvelope t = true → isEnvelope (value loc t) = true
  columns : ∀ loc t, loc.column ∈ nameColumns → value loc t = t

namespace Resealing

def cell (r : Resealing) (loc : Loc) : SqlValue → SqlValue
  | .text t => if isEnvelope t then .text (r.value loc t) else .text t
  | .other => .other

def row (r : Resealing) (table : Text) (row : SqlRow) : SqlRow :=
  { row with cell := fun column => r.cell ⟨table, column, row.rowid⟩ (row.cell column) }

def table (r : Resealing) (t : SqlTable) : SqlTable :=
  { t with rows := t.rows.update (fun _ => true) (r.row t.name) (SqlRow.keeps fun _ => rfl) }

def file (r : Resealing) (f : DataFile) : DataFile where
  path := f.path
  tables := f.tables.map r.table
  distinct := by
    rw [List.map_map]
    exact f.distinct

def ref (r : Resealing) (ref : EnvelopeRef) : EnvelopeRef := { ref with value := r.value ref.loc ref.value }

/-- Nothing is written. -/
def none : Resealing := ⟨fun _ t => t, fun _ _ h => h, fun _ _ _ => rfl⟩

/-- One envelope is written anew. -/
def one (ref : EnvelopeRef) (value : Text) (hvalue : isEnvelope value = true) (hcolumn : ref.loc.column ∉ nameColumns) :
    Resealing where
  value loc t := if loc = ref.loc ∧ t = ref.value then value else t
  keeps loc t ht := by
    split
    · exact hvalue
    · exact ht
  columns loc t hloc := by
    split
    next h =>
      rw [h.1] at hloc
      exact absurd hloc hcolumn
    next => rfl

/-- The first, then the second. -/
def comp (r s : Resealing) : Resealing where
  value loc t := s.value loc (r.value loc t)
  keeps loc t ht := s.keeps loc _ (r.keeps loc t ht)
  columns loc t hloc := by rw [r.columns loc t hloc, s.columns loc t hloc]

variable (r s : Resealing)

theorem rows_table (t : SqlTable) : (r.table t).rows.rows = t.rows.rows.map (r.row t.name) := by
  simp [table]

theorem envelope?_cell (loc : Loc) (v : SqlValue) : envelope? (r.cell loc v) = (envelope? v).map (r.value loc) := by
  cases v with
  | other => rfl
  | text t =>
    by_cases ht : isEnvelope t = true
    · simp [cell, envelope?, ht, r.keeps loc t ht]
    · simp [cell, envelope?, ht]

theorem cell_name {column : Text} (hcolumn : column ∈ nameColumns) (table : Text) (rowid : Nat) (v : SqlValue) :
    r.cell ⟨table, column, rowid⟩ v = v := by
  cases v with
  | other => rfl
  | text t => simp [cell, r.columns ⟨table, column, rowid⟩ t hcolumn]

theorem cell_comp (loc : Loc) (v : SqlValue) : (r.comp s).cell loc v = s.cell loc (r.cell loc v) := by
  cases v with
  | other => rfl
  | text t =>
    by_cases ht : isEnvelope t = true
    · simp [cell, comp, ht, r.keeps loc t ht]
    · simp [cell, ht]

theorem file_comp (f : DataFile) : (r.comp s).file f = s.file (r.file f) := by
  have htable : ∀ t, (r.comp s).table t = s.table (r.table t) := by
    intro t
    unfold table
    congr 1
    apply Table.ext
    simp only [Table.rows_update, if_true, List.map_map]
    refine List.map_congr_left fun row _ => ?_
    simp only [Resealing.row, Function.comp_apply, cell_comp]
  unfold file
  congr 1
  rw [List.map_map]
  exact List.map_congr_left fun t _ => htable t

theorem file_none (f : DataFile) : none.file f = f := by
  have hcell : ∀ loc v, none.cell loc v = v := by
    intro loc v
    cases v with
    | other => rfl
    | text t => simp [cell, none]
  have htable : ∀ t, none.table t = t := by
    intro t
    unfold table
    congr 1
    apply Table.ext
    simp only [Table.rows_update, if_true, Resealing.row, hcell, List.map_id']
  unfold file
  congr 1
  rw [List.map_congr_left fun t _ => htable t, List.map_id']

/-! ### What stays -/

theorem quotedTables_file (f : DataFile) : (r.file f).quotedTables = f.quotedTables.map r.table := by
  unfold DataFile.quotedTables file
  rw [List.filter_map]
  rfl

theorem envelopes_file (f : DataFile) : (r.file f).envelopes = f.envelopes.map fun e => (e.1, r.value e.1 e.2) := by
  simp only [DataFile.envelopes, quotedTables_file, List.flatMap_map, List.map_flatMap]
  refine List.flatMap_congr fun t _ => List.flatMap_congr fun column _ => ?_
  rw [rows_table, List.filterMap_map, List.map_filterMap]
  refine List.filterMap_congr fun row _ => ?_
  simp only [Function.comp_apply, Resealing.row, envelope?_cell, Option.map_map]
  rfl

theorem countEnvelopes_file (f : DataFile) : (r.file f).countEnvelopes = f.countEnvelopes := by
  rw [← length_envelopes, ← length_envelopes, envelopes_file, List.length_map]

theorem rowRefs_map {table column keyColumn : Text} (hkey : keyColumn ∈ nameColumns) (rows : List SqlRow) :
    rowRefs table column keyColumn (rows.map (r.row table)) =
      (rowRefs table column keyColumn rows).map (List.map r.ref) := by
  induction rows with
  | nil => rfl
  | cons row rows ih =>
    rw [List.map_cons, rowRefs, rowRefs]
    simp only [Resealing.row, envelope?_cell, r.cell_name hkey]
    cases envelope? (row.cell column) with
    | none => exact ih
    | some value =>
      simp only [Option.map_some]
      cases aadKeyOf (row.cell keyColumn) with
      | error e => rfl
      | ok aadKey =>
        have hrest : rowRefs table column keyColumn (rows.map fun row => r.row table row) = _ := ih
        simp only [bind, Except.bind, hrest]
        cases rowRefs table column keyColumn rows with
        | error e => rfl
        | ok refs => rfl

theorem has_row {column : Text} (hcolumn : column ∈ nameColumns) (table value : Text) (row : SqlRow) :
    (r.row table row).has column value = row.has column value := by
  simp only [SqlRow.has, Resealing.row, r.cell_name hcolumn]

theorem verifierRef_map {table column keyColumn : Text} (hkey : keyColumn ∈ nameColumns) (name aadKey : Text)
    (rows : List SqlRow) : verifierRef table column keyColumn name aadKey (rows.map (r.row table)) =
      (verifierRef table column keyColumn name aadKey rows).map r.ref := by
  unfold verifierRef
  rw [List.find?_map]
  have hhas : ((fun row : SqlRow => row.has keyColumn name) ∘ r.row table) = fun row => row.has keyColumn name := by
    funext row
    exact r.has_row hkey table name row
  rw [hhas]
  cases rows.find? fun row => row.has keyColumn name with
  | none => rfl
  | some row =>
    simp only [Option.map_some, Resealing.row, envelope?_cell]
    cases envelope? (row.cell column) <;> rfl

theorem query_file (f : DataFile) (table : Text) (columns : List Text)
    {q : SqlTable → Except Text (List EnvelopeRef)}
    (hq : ∀ t, t.name = table → q (r.table t) = (q t).map (List.map r.ref)) :
    (r.file f).query table columns q = (f.query table columns q).map (List.map r.ref) := by
  unfold DataFile.query
  rw [quotedTables_file, List.find?_map]
  have hname : ((fun t : SqlTable => t.name == table) ∘ r.table) = fun t => t.name == table := rfl
  rw [hname]
  cases hfind : f.quotedTables.find? fun t => t.name == table with
  | none => rfl
  | some t =>
    have htable : t.name = table := by simpa using List.find?_some hfind
    simp only [Option.map_some]
    rw [show (r.table t).columns = t.columns from rfl]
    split
    · exact hq t htable
    · rfl

theorem knownEnvelopes_file (f : DataFile) (tenantId : Text) :
    knownEnvelopes (r.file f) tenantId = (knownEnvelopes f tenantId).map (List.map r.ref) := by
  have hkey : keyColumn ∈ nameColumns := by decide
  have hentries := r.query_file f vaultEntries [keyColumn, encryptedValue, tenantIdColumn]
    (q := fun t => rowRefs vaultEntries encryptedValue keyColumn
      (t.rows.rows.filter fun row => row.has tenantIdColumn tenantId)) fun t ht => by
    have hhas : ((fun row : SqlRow => row.has tenantIdColumn tenantId) ∘ r.row vaultEntries) =
        fun row => row.has tenantIdColumn tenantId := by
      funext row
      exact r.has_row (by decide) vaultEntries tenantId row
    rw [rows_table, ht, List.filter_map, hhas, r.rowRefs_map hkey]
  have hverifier := r.query_file f vaultMetadata [valueColumn, keyColumn]
    (q := fun t => pure (verifierRef vaultMetadata valueColumn keyColumn ("key_verifier:".toList ++ tenantId)
      VAULT_KEY_VERIFIER_KEY t.rows.rows)) fun t ht => by
    rw [rows_table, ht, r.verifierRef_map hkey]
    rfl
  have hsettings := r.query_file f tenantSettings [settingKeyColumn, storedValue]
    (q := fun t => rowRefs tenantSettings storedValue settingKeyColumn t.rows.rows) fun t ht => by
    rw [rows_table, ht, r.rowRefs_map (by decide)]
  have hsettingsVerifier := r.query_file f settingsMetadata [valueColumn, keyColumn]
    (q := fun t => pure (verifierRef settingsMetadata valueColumn keyColumn "secret_key_verifier".toList
      SETTINGS_KEY_VERIFIER_CIPHER_KEY t.rows.rows)) fun t ht => by
    rw [rows_table, ht, r.verifierRef_map hkey]
    rfl
  unfold knownEnvelopes
  rw [hentries, hverifier, hsettings, hsettingsVerifier]
  -- Each of the four queries returns the same refs up to their values, or the same error.
  cases f.query vaultEntries _ _ with
  | error e => rfl
  | ok entries =>
    cases f.query vaultMetadata _ _ with
    | error e => rfl
    | ok verifier =>
      cases f.query tenantSettings _ _ with
      | error e => rfl
      | ok settings =>
        cases f.query settingsMetadata _ _ with
        | error e => rfl
        | ok settingsVerifier =>
          simp [bind, Except.bind, Except.map, pure, Except.pure]

theorem knownRefs_file (f : DataFile) : (r.file f).knownRefs = f.knownRefs.map (List.map r.ref) := by
  unfold DataFile.knownRefs
  rw [show (r.file f).tenantId? = f.tenantId? from rfl]
  cases f.tenantId? with
  | none => rfl
  | some tenantId => exact r.knownEnvelopes_file f tenantId

end Resealing

/-! ## An UPDATE -/

theorem updateCell_eq {ref : EnvelopeRef} {value : Text} (hvalue : isEnvelope value = true)
    (hcolumn : ref.loc.column ∉ nameColumns) (href : isEnvelope ref.value = true) (f : DataFile) :
    f.updateCell ref value = (Resealing.one ref value hvalue hcolumn).file f := by
  have hcell : ∀ loc v, (Resealing.one ref value hvalue hcolumn).cell loc v =
      if loc = ref.loc ∧ v = .text ref.value then .text value else v := by
    intro loc v
    cases v with
    | other => simp [Resealing.cell]
    | text t =>
      by_cases hhit : loc = ref.loc ∧ t = ref.value
      · obtain ⟨rfl, rfl⟩ := hhit
        simp [Resealing.cell, Resealing.one, href]
      · simp only [Resealing.cell, Resealing.one, SqlValue.text.injEq, if_neg hhit, ite_self]
  have htable : ∀ t : SqlTable, (if t.name = ref.loc.table then t.updateCell ref value else t) =
      (Resealing.one ref value hvalue hcolumn).table t := by
    intro t
    have hrow : ∀ row : SqlRow, (Resealing.one ref value hvalue hcolumn).row t.name row =
        if t.name = ref.loc.table ∧ (row.rowid == ref.loc.rowid && row.has ref.loc.column ref.value) = true then
          { row with cell := Function.update row.cell ref.loc.column (.text value) } else row := by
      intro row
      obtain ⟨⟨table, column, rowid⟩, aadKey, old⟩ := ref
      simp only [Resealing.row, hcell, Loc.mk.injEq, Bool.and_eq_true, beq_iff_eq, SqlRow.has]
      split
      next h =>
        obtain ⟨hname, hrowid, hold⟩ := h
        congr 1
        funext c
        by_cases hc : c = column
        · subst hc
          simp [hname, hrowid, hold]
        · rw [Function.update_of_ne hc]
          simp [hc]
      next h =>
        congr 1
        funext c
        refine if_neg fun hhit => h ?_
        obtain ⟨⟨hname, rfl, hrowid⟩, hold⟩ := hhit
        exact ⟨hname, hrowid, hold⟩
    by_cases hname : t.name = ref.loc.table
    · rw [if_pos hname]
      unfold SqlTable.updateCell Resealing.table
      congr 1
      apply Table.ext
      simp only [Table.rows_update, if_true, hrow]
      exact List.map_congr_left fun row _ => by simp only [hname, true_and]
    · have hrows : t.rows.update (fun _ => true) ((Resealing.one ref value hvalue hcolumn).row t.name)
          (SqlRow.keeps fun _ => rfl) = t.rows := by
        apply Table.ext
        simp only [Table.rows_update, if_true, hrow, hname, false_and, if_false, List.map_id']
      rw [if_neg hname, Resealing.table, hrows]
  unfold DataFile.updateCell Resealing.file
  congr 1
  exact List.map_congr_left fun t _ => htable t

end Zenod.Chassis
