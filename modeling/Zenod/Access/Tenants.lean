/-
The tenant store of a unit (`sqliteTenantStore.ts`): one row for a tenant, with
the hash of its primary token, and two tables of further token hashes, the
preserved primary ones and those of a credential profile.

`resolve_current`: whatever table a hash is found in, the record that is
resolved has the status and the expiry that the tenant's row has now.
-/
import Zenod.Lib.JsonRead
import Zenod.Lib.Table
import Zenod.Lib.Text

namespace Zenod.Access

open Keyed Text

inductive TenantStatus | active | suspended | deleted
deriving DecidableEq

/-- A tenant; a quota of null is none. -/
structure TenantContext where
  id : Text
  name : Option Text := none
  plan : Option Text := none
  quota : Option JsonNumber := none
deriving DecidableEq

/-- A row of `tenants`. -/
structure TenantRow where
  tenantId : Text
  name : Option Text
  plan : Option Text
  quota : Option JsonNumber
  tokenHash : Text
  status : TenantStatus
  expiresAt : Option Int
deriving DecidableEq

instance : Keyed TenantRow where
  clash a b := a.tenantId == b.tenantId || a.tokenHash == b.tokenHash
  clash_symm a b := by rw [BEq.comm, @BEq.comm _ _ _ a.tokenHash]

/-- A row of `tenant_primary_token_aliases`. -/
structure PrimaryAlias where
  tokenHash : Text
  tenantId : Text
deriving DecidableEq

instance : Keyed PrimaryAlias where
  clash a b := a.tokenHash == b.tokenHash
  clash_symm _ _ := BEq.comm

/-- A row of `tenant_token_aliases`. -/
structure TokenAlias where
  tokenHash : Text
  tenantId : Text
  profile : Text
deriving DecidableEq

instance : Keyed TokenAlias where
  clash a b := a.tokenHash == b.tokenHash || (a.tenantId, a.profile) == (b.tenantId, b.profile)
  clash_symm a b := by rw [BEq.comm, @BEq.comm _ _ _ (a.tenantId, a.profile)]

structure TenantDb where
  tenants : Table TenantRow := .empty
  primaryAliases : Table PrimaryAlias := .empty
  tokenAliases : Table TokenAlias := .empty
deriving DecidableEq

structure TenantTokenRecord where
  tokenHash : Text
  tenant : TenantContext
  profile : Option Text := none
  status : TenantStatus
  expiresAt : Option Int
deriving DecidableEq

inductive TenantError | tenantId | tokenHash | profile | longProfile | reconciledToken | expiresAt | bound | constraint
deriving DecidableEq

def TenantError.message : TenantError → Text
  | .tenantId => "tenant id must be non-empty".toList
  | .tokenHash => "token hash must be a SHA-256 hex digest".toList
  | .profile => "credential profile must be non-empty".toList
  | .longProfile => "credential profile must be at most 100 characters".toList
  | .reconciledToken => "reconciled credential token must be between 32 and 4096 characters".toList
  | .expiresAt => "expiresAt must be a valid date or timestamp".toList
  | .bound => "token hash is already bound to another credential".toList
  | .constraint => "UNIQUE constraint failed".toList

/-! ## Inputs -/

/-- Text without the blanks around it, if anything is left. -/
def filled (t : Option Text) : Option Text := (t.map trim).filter (· ≠ [])

def normalizeTenantContext (tenant : TenantContext) : Except TenantError TenantContext :=
  if trim tenant.id = [] then .error .tenantId
  else .ok { id := trim tenant.id, name := filled tenant.name, plan := filled tenant.plan, quota := tenant.quota }

/-- `TOKEN_HASH_RE`. -/
def isTokenHash (t : Text) : Bool := t.length = 64 && t.all fun c => "abcdef0123456789".toList.contains c

def normalizeTokenHash (tokenHash : Text) : Except TenantError Text :=
  let normalized := (trim tokenHash).map Char.toLower
  if isTokenHash normalized then .ok normalized else .error .tokenHash

def normalizeCredentialProfile (profile : Text) : Except TenantError Text :=
  if trim profile = [] then .error .profile
  else if 100 < utf16Length (trim profile) then .error .longProfile
  else .ok (trim profile)

def normalizeReconciledCredentialToken (token : Text) : Except TenantError Text :=
  if utf16Length (trim token) < 32 ∨ 4096 < utf16Length (trim token) then .error .reconciledToken
  else .ok (trim token)

/-- A `Date` holds this time. -/
def isTime (ms : Int) : Bool := -8640000000000000 ≤ ms && ms ≤ 8640000000000000

def normalizeExpiresAt : Option Int → Except TenantError (Option Int)
  | none => .ok none
  | some ms => if isTime ms then .ok (some ms) else .error .expiresAt

/-- `isActive`, and `tenantRecordActive`. -/
def TenantTokenRecord.isActive (r : TenantTokenRecord) (now : Int) : Bool :=
  r.status = .active && r.expiresAt.all fun ms => isTime ms && now < ms

/-! ## Queries -/

/-- `rowToRecord`, for a row joined to a token. -/
def TenantRow.toRecord (r : TenantRow) (tokenHash : Text) (profile : Option Text) : TenantTokenRecord where
  tokenHash := tokenHash
  tenant := { id := r.tenantId, name := r.name, plan := r.plan, quota := r.quota }
  profile := profile
  status := r.status
  expiresAt := r.expiresAt

namespace TenantDb

def findTenant (db : TenantDb) (tenantId : Text) : Option TenantRow :=
  db.tenants.rows.find? (·.tenantId = trim tenantId)

/-- The tenant that an alias is joined to. -/
def joined (db : TenantDb) (tenantId : Text) : Option TenantRow := db.tenants.rows.find? (·.tenantId = tenantId)

/-- `resolveTokenHash`, of a normalized hash. -/
def resolveTokenHash (db : TenantDb) (tokenHash : Text) : Option TenantTokenRecord :=
  ((db.tenants.rows.find? (·.tokenHash = tokenHash)).map fun row => row.toRecord tokenHash none) <|>
  ((db.primaryAliases.rows.find? (·.tokenHash = tokenHash)).bind fun a =>
    (db.joined a.tenantId).map fun row => row.toRecord tokenHash none) <|>
  ((db.tokenAliases.rows.find? (·.tokenHash = tokenHash)).bind fun a =>
    (db.joined a.tenantId).map fun row => row.toRecord tokenHash (some a.profile))

/-! ## Transactions -/

/-- The hash belongs to another tenant or to a profile. -/
def boundElsewhere (db : TenantDb) (tenantId tokenHash : Text) : Bool :=
  (db.resolveTokenHash tokenHash).any fun r => r.tenant.id ≠ tenantId || r.profile.isSome

/-- The preserved hashes after the primary one is written. -/
def preserved (db : TenantDb) (tenantId tokenHash : Text) (preservePriorPrimary : Bool) : Table PrimaryAlias :=
  let prior := (db.joined tenantId).map (·.tokenHash)
  if prior = some tokenHash then db.primaryAliases
  else
    let aliases :=
      if preservePriorPrimary then
        match prior with
        | some hash => (db.primaryAliases.insert? ⟨hash, tenantId⟩).getD db.primaryAliases
        | none => db.primaryAliases
      else db.primaryAliases.delete (·.tenantId = tenantId)
    aliases.delete fun a => a.tenantId = tenantId && a.tokenHash = tokenHash

def writeRecord (db : TenantDb) (tenant : TenantContext) (tokenHash : Text) (status : TenantStatus) (expiresAt : Option Int)
    (preservePriorPrimary : Bool) : Except TenantError (TenantTokenRecord × TenantDb) := do
  let tenant ← normalizeTenantContext tenant
  let tokenHash ← normalizeTokenHash tokenHash
  let expiresAt ← normalizeExpiresAt expiresAt
  if db.boundElsewhere tenant.id tokenHash then throw .bound
  let row : TenantRow := ⟨tenant.id, tenant.name, tenant.plan, tenant.quota, tokenHash, status, expiresAt⟩
  match (db.tenants.delete (·.tenantId = tenant.id)).insert? row with
  | some tenants =>
    return (row.toRecord tokenHash none,
      { db with tenants := tenants, primaryAliases := db.preserved tenant.id tokenHash preservePriorPrimary })
  | none => throw .constraint

structure ProvisionTenantInput where
  tenantId : Option Text := none
  name : Option Text := none
  plan : Option Text := none
  quota : Option JsonNumber := none
  token : Option Text := none
  status : Option TenantStatus := none
  expiresAt : Option Int := none

variable (hashToken : Text → Text)

/-- `provisionTenant`; the token is generated if none is given. -/
def provisionTenant (db : TenantDb) (input : ProvisionTenantInput) (generated : Text) :
    Except TenantError (TenantTokenRecord × TenantDb) :=
  let ordinal := Nat.toDigits 10 (db.tenants.rows.length + 1)
  db.writeRecord { id := input.tenantId.getD ("tenant-".toList ++ ordinal), name := input.name, plan := input.plan, quota := input.quota }
    (hashToken ((filled input.token).getD generated)) (input.status.getD .active) input.expiresAt true

def importTenantTokenHash (db : TenantDb) (tokenHash : Text) (tenant : TenantContext) (status : Option TenantStatus)
    (expiresAt : Option Int) : Except TenantError (TenantTokenRecord × TenantDb) :=
  db.writeRecord tenant tokenHash (status.getD .active) expiresAt true

/-- `rotateTenantToken`: the tenant is active afterwards. -/
def rotateTenantToken (db : TenantDb) (tenantId generated : Text) : Except TenantError (Option (TenantTokenRecord × TenantDb)) :=
  match db.findTenant tenantId with
  | none => .ok none
  | some row => some <$> db.writeRecord (row.toRecord row.tokenHash none).tenant (hashToken generated) .active row.expiresAt false

def setTenantStatus (db : TenantDb) (tenantId : Text) (status : TenantStatus) : Except TenantError (Option (TenantTokenRecord × TenantDb)) :=
  match db.findTenant tenantId with
  | none => .ok none
  | some row => some <$> db.writeRecord (row.toRecord row.tokenHash none).tenant row.tokenHash status row.expiresAt true

/-- `provisionTenantToken`: a profile has one token, the newest. -/
def provisionTenantToken (db : TenantDb) (tenantId profile generated : Text) :
    Except TenantError (Option (TenantTokenRecord × TenantDb)) :=
  match db.findTenant tenantId with
  | none => .ok none
  | some row => do
    let profile ← normalizeCredentialProfile profile
    let tokenHash := hashToken generated
    match (db.tokenAliases.delete fun a => a.tenantId = row.tenantId && a.profile = profile).insert?
        ⟨tokenHash, row.tenantId, profile⟩ with
    | some aliases => return some (row.toRecord tokenHash (some profile), { db with tokenAliases := aliases })
    | none => throw .constraint

/-- `ensureTenantToken`; only what it writes. -/
def ensureTenantToken (db : TenantDb) (tenantId profile token : Text) : Except TenantError (Option TenantDb) :=
  match db.findTenant tenantId with
  | none => .ok none
  | some row => do
    let profile ← normalizeCredentialProfile profile
    let token ← normalizeReconciledCredentialToken token
    let tokenHash := hashToken token
    if db.tokenAliases.rows.any fun a => a.tenantId = row.tenantId && a.profile = profile then return some db
    else if (db.resolveTokenHash tokenHash).isSome then return some db
    else
      match db.tokenAliases.insert? ⟨tokenHash, row.tenantId, profile⟩ with
      | some aliases => return some { db with tokenAliases := aliases }
      | none => throw .constraint

def preserveTenantTokenHash (db : TenantDb) (tenantId tokenHash : Text) : Except TenantError (Option TenantDb) :=
  match db.findTenant tenantId with
  | none => .ok none
  | some row => do
    let tokenHash ← normalizeTokenHash tokenHash
    match db.resolveTokenHash tokenHash with
    | some _ => if db.boundElsewhere row.tenantId tokenHash then throw .bound else return some db
    | none =>
      match db.primaryAliases.insert? ⟨tokenHash, row.tenantId⟩ with
      | some aliases => return some { db with primaryAliases := aliases }
      | none => throw .constraint

end TenantDb

/-! ## Tenants whose access has ended -/

/-- The tenant is suspended or deleted, or its expiry has passed. -/
def TenantDb.Ended (db : TenantDb) (tenantId : Text) (now : Int) : Prop :=
  ∃ row ∈ db.tenants.rows, row.tenantId = tenantId ∧ (row.status ≠ .active ∨ ∃ ms, row.expiresAt = some ms ∧ ms ≤ now)

instance (db : TenantDb) (tenantId : Text) (now : Int) : Decidable (db.Ended tenantId now) :=
  decidable_of_iff (db.tenants.rows.any fun row => row.tenantId = tenantId && (row.status ≠ .active || row.expiresAt.any (· ≤ now)))
    (by simp [TenantDb.Ended, Option.any_eq_true])

variable {db : TenantDb} {tokenHash tenantId : Text} {record : TenantTokenRecord} {now : Int}

theorem joined_spec {row : TenantRow} (h : db.joined tenantId = some row) : row ∈ db.tenants.rows ∧ row.tenantId = tenantId :=
  have hid := List.find?_some h
  ⟨List.mem_of_find?_eq_some h, of_decide_eq_true hid⟩

/-- **A record is the tenant's row as it is now**, in whichever table its hash was found. -/
theorem resolve_current (h : db.resolveTokenHash tokenHash = some record) :
    ∃ row ∈ db.tenants.rows, ∃ profile, record = row.toRecord tokenHash profile := by
  unfold TenantDb.resolveTokenHash at h
  rw [Option.orElse_eq_some, Option.orElse_eq_some] at h
  rcases h with h | ⟨-, h | ⟨-, h⟩⟩
  · obtain ⟨row, hrow, rfl⟩ := Option.map_eq_some_iff.1 h
    exact ⟨row, List.mem_of_find?_eq_some hrow, none, rfl⟩
  · obtain ⟨a, -, h⟩ := Option.bind_eq_some_iff.1 h
    obtain ⟨row, hrow, rfl⟩ := Option.map_eq_some_iff.1 h
    exact ⟨row, (joined_spec hrow).1, none, rfl⟩
  · obtain ⟨a, -, h⟩ := Option.bind_eq_some_iff.1 h
    obtain ⟨row, hrow, rfl⟩ := Option.map_eq_some_iff.1 h
    exact ⟨row, (joined_spec hrow).1, some a.profile, rfl⟩

theorem identifies_tenantId (tenantId : Text) : Table.Identifies fun r : TenantRow => decide (r.tenantId = tenantId) := by
  intro a b ha hb
  rw [decide_eq_true_eq] at ha hb
  show (a.tenantId == b.tenantId || a.tokenHash == b.tokenHash) = true
  rw [ha, hb, beq_self_eq_true, Bool.true_or]

/-- **An active record is of a tenant whose access has not ended.** -/
theorem not_ended_of_active (h : db.resolveTokenHash tokenHash = some record) (hactive : record.isActive now = true) :
    ¬db.Ended record.tenant.id now := by
  obtain ⟨row, hrow, profile, rfl⟩ := resolve_current h
  rintro ⟨other, hother, hid, hended⟩
  obtain rfl : other = row := Table.eq_of_identifies (identifies_tenantId row.tenantId) hother hrow (decide_eq_true hid)
    (decide_eq_true rfl)
  unfold TenantTokenRecord.isActive at hactive
  rw [Bool.and_eq_true, decide_eq_true_eq] at hactive
  rcases hended with hstatus | ⟨ms, hms, hpast⟩
  · exact hstatus hactive.1
  · have hfuture := hactive.2
    rw [show (other.toRecord tokenHash profile).expiresAt = some ms from hms, Option.all_some, Bool.and_eq_true,
      decide_eq_true_eq] at hfuture
    omega

end Zenod.Access
