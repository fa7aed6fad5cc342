/-
Rotation of the vault master key over a data directory (`storage.ts`,
`rekeyChassisDataDir`): a scan of every text column of every SQLite file, and
one transaction for each file in which envelopes are written anew, with a scrub
of that file after its COMMIT.

A process may end between any two of these steps: `interrupted` is the
directory then.
-/
import Zenod.Chassis.Vault

namespace Zenod.Chassis

open Text Keyed

/-! ## SQLite files -/

inductive SqlValue
  | text (t : Text)
  /-- A number, a blob or NULL. -/
  | other
deriving DecidableEq

structure SqlRow where
  rowid : Nat
  cell : Text → SqlValue

instance : Keyed SqlRow where
  clash a b := a.rowid == b.rowid
  clash_symm _ _ := BEq.comm

theorem SqlRow.keeps {f : SqlRow → SqlRow} (hf : ∀ r, (f r).rowid = r.rowid) (r s : SqlRow) :
    clash (f r) s = clash r s := by
  simp only [clash, hf]

structure SqlTable where
  name : Text
  columns : List Text
  rows : Table SqlRow
  distinct : columns.Nodup

/-- A file, under its path in the data directory. -/
structure DataFile where
  path : List Text
  tables : List SqlTable
  distinct : (tables.map SqlTable.name).Nodup

/-- What `listSqliteFiles` finds. -/
structure DataDir where
  files : List DataFile
  distinct : (files.map DataFile.path).Nodup
  /-- Replaced envelopes that still stand in free pages or in the WAL of a file. -/
  residue : List Text → List Text

/-- Where a value stands in a file. -/
structure Loc where
  table : Text
  column : Text
  rowid : Nat
deriving DecidableEq

structure EnvelopeRef where
  loc : Loc
  aadKey : Text
  value : Text
deriving DecidableEq

def isEnvelope (t : Text) : Bool := startsWith t vaultEnvelopePrefix

def envelope? : SqlValue → Option Text
  | .text t => if isEnvelope t then some t else none
  | .other => none

def DataFile.quotedTables (f : DataFile) : List SqlTable :=
  f.tables.filter fun t => !startsWith t.name "sqlite_".toList

/-- The queries `SELECT count(*)`, one for each column. -/
def DataFile.countEnvelopes (f : DataFile) : Nat :=
  (f.quotedTables.map fun t =>
    (t.columns.map fun column => t.rows.count fun row => (envelope? (row.cell column)).isSome).sum).sum

/-! ## Known stores -/

/-- `normalizeVaultKey(row.key)`, which throws on what is no string. -/
def aadKeyOf : SqlValue → Except Text Text
  | .text key => normalizeVaultKey key
  | .other => throw "trim is not a function".toList

/-- The envelopes of a column, with the names that another column has for them. -/
def rowRefs (table column keyColumn : Text) : List SqlRow → Except Text (List EnvelopeRef)
  | [] => pure []
  | row :: rows =>
    match envelope? (row.cell column) with
    | none => rowRefs table column keyColumn rows
    | some value => do
      let aadKey ← aadKeyOf (row.cell keyColumn)
      let refs ← rowRefs table column keyColumn rows
      pure (⟨⟨table, column, row.rowid⟩, aadKey, value⟩ :: refs)

/-- A table, if the file has it; a query for columns that it lacks throws. -/
def DataFile.query (f : DataFile) (table : Text) (columns : List Text)
    (select : SqlTable → Except Text (List EnvelopeRef)) : Except Text (List EnvelopeRef) :=
  match f.quotedTables.find? fun t => t.name == table with
  | none => pure []
  | some t => if columns.all fun column => t.columns.contains column then select t else throw "no such column".toList

/-- `WHERE column = ?`. -/
def SqlRow.has (row : SqlRow) (column value : Text) : Bool := row.cell column == .text value

/-- The first row that `keyColumn` names so, when it is an envelope. -/
def verifierRef (table column keyColumn name aadKey : Text) (rows : List SqlRow) : List EnvelopeRef :=
  match rows.find? fun row => row.has keyColumn name with
  | none => []
  | some row =>
    match envelope? (row.cell column) with
    | none => []
    | some value => [⟨⟨table, column, row.rowid⟩, aadKey, value⟩]

def vaultEntries : Text := "vault_entries".toList
def vaultMetadata : Text := "vault_metadata".toList
def tenantSettings : Text := "tenant_settings".toList
def settingsMetadata : Text := "settings_metadata".toList

def tenantIdColumn : Text := "tenant_id".toList
def keyColumn : Text := "key".toList
def settingKeyColumn : Text := "setting_key".toList
def encryptedValue : Text := "encrypted_value".toList
def storedValue : Text := "stored_value".toList
def valueColumn : Text := "value".toList

def SETTINGS_KEY_VERIFIER_CIPHER_KEY : Text := "__chassis_settings_key_verifier__".toList

def knownEnvelopes (f : DataFile) (tenantId : Text) : Except Text (List EnvelopeRef) := do
  let entries ← f.query vaultEntries [keyColumn, encryptedValue, tenantIdColumn] fun t =>
    rowRefs vaultEntries encryptedValue keyColumn (t.rows.rows.filter fun row => row.has tenantIdColumn tenantId)
  let verifier ← f.query vaultMetadata [valueColumn, keyColumn] fun t =>
    pure (verifierRef vaultMetadata valueColumn keyColumn ("key_verifier:".toList ++ tenantId) VAULT_KEY_VERIFIER_KEY
      t.rows.rows)
  let settings ← f.query tenantSettings [settingKeyColumn, storedValue] fun t =>
    rowRefs tenantSettings storedValue settingKeyColumn t.rows.rows
  let settingsVerifier ← f.query settingsMetadata [valueColumn, keyColumn] fun t =>
    pure (verifierRef settingsMetadata valueColumn keyColumn "secret_key_verifier".toList
      SETTINGS_KEY_VERIFIER_CIPHER_KEY t.rows.rows)
  pure (entries ++ verifier ++ settings ++ settingsVerifier)

/-! ## The scan -/

/-- `[A-Za-z0-9_.-]`. -/
def isSegmentChar (c : Char) : Bool := c.isAlphanum || c == '_' || c == '.' || c == '-'

/-- `TENANT_ID_RE`. -/
def tenantIdRe : Text → Bool
  | [] => false
  | c :: t => c.isAlphanum && t.length ≤ 127 && t.all isSegmentChar

def DataFile.tenantId? (f : DataFile) : Option Text :=
  match f.path with
  | tenantId :: _ :: _ => if tenantIdRe tenantId then some tenantId else none
  | _ => none

/-- `rel.slice(1).join("/")`. -/
def DataFile.identity (f : DataFile) : Text := List.intercalate ['/'] (f.path.drop 1)

structure Plan where
  path : List Text
  id : VaultId
  refs : List EnvelopeRef
deriving DecidableEq

structure Survey where
  files : Nat := 0
  envelopes : Nat := 0
  unaccounted : Int := 0
  plans : List Plan := []
deriving DecidableEq

def DataFile.knownRefs (f : DataFile) : Except Text (List EnvelopeRef) :=
  match f.tenantId? with
  | some tenantId => knownEnvelopes f tenantId
  | none => pure []

def DataFile.vaultId (f : DataFile) : VaultId := ⟨f.tenantId?.getD [], f.identity⟩

/-- The first loop. -/
def survey : List DataFile → Except Text Survey
  | [] => pure {}
  | f :: files =>
    if f.countEnvelopes = 0 then survey files
    else do
      let refs ← f.knownRefs
      let rest ← survey files
      pure {
        files := rest.files + 1
        envelopes := f.countEnvelopes + rest.envelopes
        unaccounted := f.countEnvelopes - refs.length + rest.unaccounted
        plans := ⟨f.path, f.vaultId, refs⟩ :: rest.plans }

/-! ## Writing -/

/-- `UPDATE table SET column = value WHERE rowid = ? AND column = ?`. -/
def SqlTable.updateCell (t : SqlTable) (ref : EnvelopeRef) (value : Text) : SqlTable :=
  { t with
    rows := t.rows.update (fun row => row.rowid == ref.loc.rowid && row.has ref.loc.column ref.value)
      (fun row => { row with cell := Function.update row.cell ref.loc.column (.text value) })
      (SqlRow.keeps fun _ => rfl) }

def DataFile.updateCell (f : DataFile) (ref : EnvelopeRef) (value : Text) : DataFile where
  path := f.path
  tables := f.tables.map fun t => if t.name = ref.loc.table then t.updateCell ref value else t
  distinct := by
    have hname : (SqlTable.name ∘ fun t : SqlTable => if t.name = ref.loc.table then t.updateCell ref value else t) =
        SqlTable.name := by
      funext t
      dsimp only [Function.comp_apply]
      split <;> rfl
    rw [List.map_map, hname]
    exact f.distinct

structure ChassisRekeyOptions where
  key : VaultKey
  previousKey : Option VaultKey

structure ChassisRekeyReport where
  files : Nat
  envelopes : Nat
  verified : Nat
  rekeyed : Nat
  failed : Int
deriving DecidableEq

/-- What becomes of one envelope. -/
inductive Verdict
  | verified
  | failed
  | rekey (value : Text)
deriving DecidableEq

section Run

variable (crypto : Crypto) (options : ChassisRekeyOptions)

def judge (id : VaultId) (iv : Iv) (ref : EnvelopeRef) : Verdict :=
  let aad := vaultAad id ref.aadKey
  let newFileKey := deriveTenantVaultKey crypto options.key id
  if (tryDecryptVaultValue crypto ref.value newFileKey aad).isSome then .verified
  else
    match options.previousKey.bind fun previousKey =>
      tryDecryptVaultValue crypto ref.value (deriveTenantVaultKey crypto previousKey id) aad with
    | none => .failed
    | some plaintext => .rekey (encryptVaultValue crypto plaintext newFileKey aad iv)

/-- The vectors drawn for the envelopes of each file. -/
abbrev Draw := List Text → EnvelopeRef → Iv

variable (draw : Draw)

def Plan.verdicts (plan : Plan) : List Verdict :=
  plan.refs.map fun ref => judge crypto options plan.id (draw plan.path ref) ref

/-- The update of one envelope, if there is one. -/
def Plan.writeRef (plan : Plan) (f : DataFile) (ref : EnvelopeRef) : DataFile :=
  match judge crypto options plan.id (draw plan.path ref) ref with
  | .rekey value => f.updateCell ref value
  | _ => f

/-- The transaction of one file. -/
def Plan.write (plan : Plan) (f : DataFile) : DataFile := plan.refs.foldl (plan.writeRef crypto options draw) f

theorem Plan.path_write (plan : Plan) (f : DataFile) : (plan.write crypto options draw f).path = f.path := by
  unfold Plan.write
  induction plan.refs generalizing f with
  | nil => rfl
  | cons ref refs ih =>
    rw [List.foldl_cons, ih]
    unfold Plan.writeRef
    split <;> rfl

/-- The envelopes that the transaction replaces. -/
def Plan.retired (plan : Plan) : List Text :=
  plan.refs.filterMap fun ref =>
    match judge crypto options plan.id (draw plan.path ref) ref with
    | .rekey _ => some ref.value
    | _ => none

/-- What the scrub of a file leaves, if the process comes to it. -/
def DataDir.residueAfter (dir : DataDir) (plan : Plan) (scrubbed : Bool) : List Text → List Text :=
  let retired := plan.retired crypto options draw
  if retired = [] then dir.residue
  else Function.update dir.residue plan.path (if scrubbed then [] else retired ++ dir.residue plan.path)

/-- `openSqlite(plan.path)` and what is done there. -/
def DataDir.rekeyFile (dir : DataDir) (plan : Plan) (scrubbed : Bool) : DataDir where
  files := dir.files.map fun f => if f.path = plan.path then plan.write crypto options draw f else f
  distinct := by
    have hpath : (DataFile.path ∘ fun f => if f.path = plan.path then plan.write crypto options draw f else f) =
        DataFile.path := by
      funext f
      dsimp only [Function.comp_apply]
      split
      · exact plan.path_write crypto options draw f
      · rfl
    rw [List.map_map, hpath]
    exact dir.distinct
  residue := dir.residueAfter crypto options draw plan scrubbed

/-- The second loop. -/
def DataDir.rekeyFiles (dir : DataDir) (plans : List Plan) : DataDir :=
  plans.foldl (fun dir plan => dir.rekeyFile crypto options draw plan true) dir

def Survey.report (s : Survey) : ChassisRekeyReport :=
  let verdicts := s.plans.flatMap fun plan => plan.verdicts crypto options draw
  let rekeyed := verdicts.countP fun v => v != .verified && v != .failed
  { files := s.files
    envelopes := s.envelopes
    verified := verdicts.count .verified + rekeyed
    rekeyed := rekeyed
    failed := verdicts.count .failed }

def rekeyChassisDataDir (dir : DataDir) : Except Text (ChassisRekeyReport × DataDir) := do
  let s ← survey dir.files
  if s.unaccounted ≠ 0 then
    pure ({ files := s.files, envelopes := s.envelopes, verified := 0, rekeyed := 0, failed := s.unaccounted }, dir)
  else pure (s.report crypto options draw, dir.rekeyFiles crypto options draw s.plans)

/-- How far a run came: so many files, and perhaps the COMMIT of one more, of which the scrub did not come to its end. -/
structure Interruption where
  draw : Draw
  done : Nat
  committed : Bool

/-- The directory when the process ends there. -/
def interrupted (dir : DataDir) (i : Interruption) : DataDir :=
  match survey dir.files with
  | .error _ => dir
  | .ok s =>
    if s.unaccounted ≠ 0 then dir
    else
      let dir := dir.rekeyFiles crypto options i.draw (s.plans.take i.done)
      match s.plans[i.done]? with
      | some plan => if i.committed then dir.rekeyFile crypto options i.draw plan false else dir
      | none => dir

end Run

end Zenod.Chassis
