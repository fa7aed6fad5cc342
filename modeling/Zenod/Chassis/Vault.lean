/-
A tenant vault (`storage.ts`): the file, how opening it migrates the plaintext
of an older version, and the reads and writes of a handle.

The transaction of `migrateLegacyPlaintext` is `migrate`: its error is the
ROLLBACK. What follows the transaction runs outside of it, and any process may
end in between, so the steps of `Turn` are the statements that a process
carries out one after the other, those of several processes in any order.
-/
import Zenod.Chassis.Envelope
import Zenod.Lib.Outcome
import Zenod.Lib.Table

namespace Zenod.Chassis

open Text Bytes Keyed

/-! ## The file -/

/-- A row of `vault_entries`. -/
structure EntryRow where
  tenantId : Text
  key : Text
  /-- The column `value` of the old schema, `encrypted_value` of the new one. -/
  value : Text
  createdAt : Int
  updatedAt : Int
deriving DecidableEq

/-- PRIMARY KEY (tenant_id, key). -/
instance : Keyed EntryRow where
  clash a b := a.tenantId == b.tenantId && a.key == b.key
  clash_symm a b := by rw [BEq.comm (a := a.tenantId), BEq.comm (a := a.key)]

/-- `vault_entries` has a column `value`; only `encrypted_value`; or neither. -/
inductive Schema
  | legacy
  | encrypted
  | unsupported
deriving DecidableEq

/-- A file after the CREATE TABLE IF NOT EXISTS of the constructor. -/
structure VaultDb where
  schema : Schema
  entries : Table EntryRow
  metadata : Text → Option Text
  /-- Plaintext that still stands in free pages or in the WAL. -/
  residue : List Text

def normalizeVaultKey (key : Text) : Except Text Text :=
  let trimmed := trim key
  if trimmed = [] ∨ utf16Length trimmed > 256 then
    .error "vault key must be 1-256 non-whitespace characters".toList
  else .ok trimmed

def VAULT_KEY_VERIFIER_KEY : Text := "__chassis_key_verifier__".toList

def VAULT_KEY_VERIFIER_VALUE : Text := "mcp-chassis-vault-key-verifier:v1".toList

section Operations

variable (crypto : Crypto) (id : VaultId) (key : VaultKey)

def metadataKey : Text := "encryption_state:".toList ++ id.tenantId

def verifierKey : Text := "key_verifier:".toList ++ id.tenantId

def stateV1 : Text := "v1".toList

def statePending : Text := "encrypted_pending_scrub".toList

def VaultDb.state (db : VaultDb) : Option Text := db.metadata (metadataKey id)

/-- INSERT ... ON CONFLICT(key) DO UPDATE. -/
def VaultDb.setMetadata (db : VaultDb) (name value : Text) : VaultDb :=
  { db with metadata := Function.update db.metadata name (some value) }

def assertVaultV1Schema (db : VaultDb) : Except Text Unit :=
  if db.schema ≠ .encrypted then throw "tenant vault encryption state does not match its schema".toList
  else pure ()

def verifyVaultKey (db : VaultDb) : Except Text Unit :=
  match db.metadata (verifierKey id) with
  | none => .error "tenant vault key verifier is missing".toList
  | some stored => do
    let value ← decryptVaultValue crypto stored key (vaultAad id VAULT_KEY_VERIFIER_KEY)
    if value ≠ VAULT_KEY_VERIFIER_VALUE then throw "tenant vault key verifier is invalid".toList
    else pure ()

/-! ## Opening -/

/-- The rows to migrate. -/
def legacyRows (db : VaultDb) : Except Text (List EntryRow) := do
  if db.schema = .unsupported then throw "tenant vault schema is unsupported".toList
  if db.schema = .encrypted ∧ 0 < db.entries.rows.length then
    throw "tenant vault has encrypted-schema rows without migration state".toList
  if db.entries.rows.any fun row => row.tenantId ≠ id.tenantId then
    throw "legacy tenant vault migration requires one tenant per database".toList
  pure db.entries.rows

/-- The insertion loop; `draw n` is the `n`-th vector drawn. -/
def encryptRows (draw : Nat → Iv) : List EntryRow → Nat → Table EntryRow → Except Text (Table EntryRow)
  | [], _, migrated => pure migrated
  | row :: rows, n, migrated => do
    let safeKey ← normalizeVaultKey row.key
    match migrated.insert? { row with
      tenantId := id.tenantId
      key := safeKey
      value := encryptVaultValue crypto row.value key (vaultAad id safeKey) (draw n) } with
    | none => throw "UNIQUE constraint failed".toList
    | some migrated => encryptRows draw rows (n + 1) migrated

/-- Every row of the tenant opens. -/
def checkRows : List EntryRow → Except Text Unit
  | [] => pure ()
  | row :: rows => do
    let safeKey ← normalizeVaultKey row.key
    let _ ← decryptVaultValue crypto row.value key (vaultAad id safeKey)
    checkRows rows

/-- The file after the migration of these rows, the tag of the key in place. -/
def VaultDb.migrated (db : VaultDb) (rows : List EntryRow) (entries : Table EntryRow) (iv : Iv) : VaultDb :=
  let dropped : VaultDb := { db with
    schema := .encrypted
    entries := entries
    residue := rows.map EntryRow.value ++ db.residue }
  (dropped.setMetadata (metadataKey id) statePending).setMetadata (verifierKey id)
    (encryptVaultValue crypto VAULT_KEY_VERIFIER_VALUE key (vaultAad id VAULT_KEY_VERIFIER_KEY) iv)

/-- The transaction of `migrateLegacyPlaintext`: whether the file must be scrubbed, and the file. -/
def migrate (draw : Nat → Iv) (db : VaultDb) : Except Text (Bool × VaultDb) :=
  match db.state id with
  | some state =>
    if state = stateV1 then do
      assertVaultV1Schema db
      verifyVaultKey crypto id key db
      pure (false, db)
    else if state ≠ statePending then throw ("unsupported tenant vault encryption state ".toList ++ state)
    else do
      assertVaultV1Schema db
      verifyVaultKey crypto id key db
      checkRows crypto id key (db.entries.rows.filter fun row => row.tenantId = id.tenantId)
      pure (true, db)
  | none => do
    let rows ← legacyRows id db
    let entries ← encryptRows crypto id key draw rows 0 Table.empty
    pure (true, db.migrated crypto id key rows entries (draw rows.length))

/-! ## A handle -/

def VaultDb.row? (db : VaultDb) (safeKey : Text) : Option EntryRow :=
  db.entries.rows.find? fun row => row.tenantId == id.tenantId && row.key == safeKey

def get (db : VaultDb) (name : Text) : Except Text (Option Text) := do
  let safeKey ← normalizeVaultKey name
  match db.row? id safeKey with
  | none => pure none
  | some row => do
    let value ← decryptVaultValue crypto row.value key (vaultAad id safeKey)
    pure (some value)

theorem encrypted_keeps {f : EntryRow → EntryRow} (hf : ∀ r, (f r).tenantId = r.tenantId ∧ (f r).key = r.key)
    (r s : EntryRow) : clash (f r) s = clash r s := by
  simp only [clash, hf]

/-- INSERT ... ON CONFLICT(tenant_id, key) DO UPDATE. -/
def upsert (table : Table EntryRow) (row : EntryRow) : Table EntryRow :=
  match table.insert? row with
  | some table => table
  | none => table.update (fun r => clash r row) (fun r => { r with value := row.value, updatedAt := row.updatedAt })
    (encrypted_keeps fun _ => ⟨rfl, rfl⟩)

def set (db : VaultDb) (name value : Text) (iv : Iv) (now : Int) : Except Text VaultDb := do
  let safeKey ← normalizeVaultKey name
  let row : EntryRow :=
    ⟨id.tenantId, safeKey, encryptVaultValue crypto value key (vaultAad id safeKey) iv, now, now⟩
  pure { db with entries := upsert db.entries row }

/-- The rows deleted, and the file. -/
def delete (db : VaultDb) (name : Text) : Except Text (Nat × VaultDb) := do
  let safeKey ← normalizeVaultKey name
  let hit := fun row : EntryRow => row.tenantId == id.tenantId && row.key == safeKey
  pure (db.entries.count hit, { db with entries := db.entries.delete hit })

/-- ORDER BY key: by the octets. -/
def listKeys (db : VaultDb) : List Text :=
  ((db.entries.rows.filter fun row => row.tenantId = id.tenantId).map EntryRow.key).mergeSort
    fun a b => utf8 a ≤ utf8 b

end Operations

/-! ## Processes -/

/-- What a constructor has still to do, or that it has returned. -/
inductive Phase
  | scrub
  | mark
  | truncate
  | ready
deriving DecidableEq

/-- A handle, or a constructor behind its transaction. -/
structure Process where
  key : VaultKey
  phase : Phase
deriving DecidableEq

structure World where
  db : VaultDb
  processes : Nat → Option Process

inductive Turn
  /-- The constructor, up to its COMMIT. -/
  | open (p : Nat) (masterKey : VaultKey) (draw : Nat → Iv)
  /-- `securelyRewriteSqlite`, which throws when the WAL stays busy. -/
  | scrub (p : Nat) (busy : Bool)
  /-- The marker `v1`. -/
  | mark (p : Nat)
  /-- The last `assertWalCheckpoint`. -/
  | truncate (p : Nat) (busy : Bool)
  | set (p : Nat) (name value : Text) (iv : Iv) (now : Int)
  | delete (p : Nat) (name : Text)
  /-- `close`, or the end of the process wherever it stands. -/
  | stop (p : Nat)

def World.leave (w : World) (p : Nat) : World := { w with processes := Function.update w.processes p none }

def World.enter (w : World) (p : Nat) (key : VaultKey) (phase : Phase) : World :=
  { w with processes := Function.update w.processes p (some ⟨key, phase⟩) }

/-- What a process in this phase does; the others do not take the turn. -/
def World.inPhase (w : World) (p : Nat) (phase : Phase) (act : VaultKey → World) : World :=
  match w.processes p with
  | some process => if process.phase = phase then act process.key else w
  | none => w

variable (crypto : Crypto) (id : VaultId)

def World.step (w : World) : Turn → World
  | .open p masterKey draw =>
    let key := deriveTenantVaultKey crypto masterKey id
    match w.processes p, migrate crypto id key draw w.db with
    | none, .ok (needsScrub, db) => { w with db }.enter p key (if needsScrub then .scrub else .ready)
    | _, _ => w
  | .scrub p busy => w.inPhase p .scrub fun key =>
    if busy then w.leave p else { w with db := { w.db with residue := [] } }.enter p key .mark
  | .mark p => w.inPhase p .mark fun key =>
    { w with db := w.db.setMetadata (metadataKey id) stateV1 }.enter p key .truncate
  | .truncate p busy => w.inPhase p .truncate fun key => if busy then w.leave p else w.enter p key .ready
  | .set p name value iv now => w.inPhase p .ready fun key =>
    match Chassis.set crypto id key w.db name value iv now with
    | .ok db => { w with db }
    | .error _ => w
  | .delete p name => w.inPhase p .ready fun _ =>
    match Chassis.delete id w.db name with
    | .ok (_, db) => { w with db }
    | .error _ => w
  | .stop p => w.leave p

def World.run (w : World) (turns : List Turn) : World := turns.foldl (World.step crypto id) w

/-- A file that no process has open. -/
def World.start (db : VaultDb) : World := ⟨db, fun _ => none⟩

/-! ## What the vault is for -/

/-- The values by their keys. -/
abbrev Contents : Type := Text → Option Text

/-- What a file of the old schema holds for the tenant. -/
def VaultDb.contents (db : VaultDb) : Contents := fun safeKey =>
  (db.entries.rows.find? fun row => decide (normalizeVaultKey row.key = .ok safeKey)).map EntryRow.value

/-- A write of a handle changes the one key. -/
def Contents.write (c : Contents) (name : Text) (value : Option Text) : Contents :=
  match normalizeVaultKey name with
  | .ok safeKey => Function.update c safeKey value
  | .error _ => c

def World.isReady (w : World) (p : Nat) : Bool := (w.processes p).any fun process => process.phase == .ready

def Contents.step (w : World) (c : Contents) : Turn → Contents
  | .set p name value _ _ => if w.isReady p then c.write name (some value) else c
  | .delete p name => if w.isReady p then c.write name none else c
  | _ => c

/-- The values after the writes of a run. -/
def Contents.run : World → Contents → List Turn → Contents
  | _, c, [] => c
  | w, c, turn :: turns => Contents.run (w.step crypto id turn) (Contents.step w c turn) turns

end Zenod.Chassis
