/-
Customers and the subjects they sign in with (`customerIdentity.ts`,
`googleDriveVaultContract.ts`): a snapshot in one file, checked as a whole
whenever it is read or written.
-/
import Zenod.Lib.Number
import Zenod.Lib.Outcome
import Zenod.Lib.Text

namespace Zenod.Customers

open Text

inductive CustomerIdentityProvider | github | google
deriving DecidableEq

def CustomerIdentityProvider.text : CustomerIdentityProvider → Text
  | .github => "github".toList
  | .google => "google".toList

structure CustomerUserRecord where
  userId : Text
  displayName : Text
  avatarUrl : Option Text
  createdAt : Text
deriving DecidableEq

structure CustomerIdentityRecord where
  userId : Text
  provider : CustomerIdentityProvider
  providerSubject : Text
  providerLogin : Option Text
  email : Option Text
  emailVerified : Bool
  createdAt : Text
deriving DecidableEq

structure CustomerAccountOwnerRecord where
  userId : Text
  accountId : Text
  createdAt : Text
deriving DecidableEq

inductive VaultBindingStatus | authorizing | ready | recovering | conflict | revoked | error
deriving DecidableEq

inductive VaultProvider
  | github (repo branch : Option Text)
  | googleDrive (folderId manifestFileId : Option Text)
deriving DecidableEq

structure VaultProviderBindingRecord where
  bindingId : Text
  tenantId : Text
  status : VaultBindingStatus
  authorizationEpoch : Option Int := none
  provider : VaultProvider
deriving DecidableEq

/-- `ProviderNeutralCustomerSnapshot`. -/
structure Snapshot where
  schemaVersion : Nat := 1
  users : List CustomerUserRecord := []
  identities : List CustomerIdentityRecord := []
  accountOwners : List CustomerAccountOwnerRecord := []
  vaultBindings : List VaultProviderBindingRecord := []
deriving DecidableEq

/-! ## Checks -/

def customerIdentityKey (i : CustomerIdentityRecord) : Except Text Text :=
  if trim i.providerSubject = [] then .error "provider_subject is required".toList
  else .ok (i.provider.text ++ ":".toList ++ i.providerSubject)

/-- The values, if none is empty or was seen before. -/
def unique (label : Text) : List Text → List Text → Except Text (List Text)
  | seen, [] => .ok seen
  | seen, value :: values =>
    if value = [] ∨ value ∈ seen then .error (label ++ " must be non-empty and unique".toList)
    else unique label (value :: seen) values

/-- Each of them passes. -/
def each {α : Type} (check : α → Except Text Unit) : List α → Except Text Unit
  | [] => .ok ()
  | a :: l => do
    check a
    each check l

def known (userIds : List Text) (label userId : Text) : Except Text Unit :=
  if userId ∈ userIds then .ok () else .error (label ++ " references unknown user ".toList ++ userId)

/-- What is asked of one vault binding. -/
def checkBinding (b : VaultProviderBindingRecord) : Except Text Unit :=
  let present (t : Option Text) : Bool := t.any (· ≠ [])
  if b.tenantId = [] ∨ b.bindingId = [] then .error "vault binding identity is incomplete".toList
  else if b.authorizationEpoch.any fun e => decide (e < 0 ∨ 2 ^ 53 ≤ e) then
    .error "vault binding authorization_epoch must be a non-negative safe integer".toList
  else match b.provider with
    | .github repo branch =>
      if b.status ≠ .authorizing ∧ ¬(present repo ∧ present branch) then
        .error "GitHub vault binding requires repo and branch".toList
      else .ok ()
    | .googleDrive folderId manifestFileId =>
      if b.status ≠ .authorizing ∧ ¬present folderId then .error "Google Drive vault binding requires folder_id".toList
      else if b.status = .ready ∧ ¬present manifestFileId then
        .error "Ready Google Drive vault binding requires manifest_file_id".toList
      else .ok ()

def assertProviderNeutralCustomerSnapshot (s : Snapshot) : Except Text Unit :=
  if s.schemaVersion ≠ 1 then
    .error ("unsupported provider-neutral customer schema version ".toList ++ (toString s.schemaVersion).toList)
  else do
    let userIds ← unique "user_id".toList [] (s.users.map (·.userId))
    let keys ← s.identities.mapM customerIdentityKey
    let _ ← unique "provider identity".toList [] keys
    let _ ← unique "account_id ownership".toList [] (s.accountOwners.map (·.accountId))
    let _ ← unique "vault binding_id".toList [] (s.vaultBindings.map (·.bindingId))
    let _ ← unique "authoritative vault tenant_id".toList [] (s.vaultBindings.map (·.tenantId))
    each (fun i => known userIds "identity".toList i.userId) s.identities
    each (fun o => known userIds "account owner".toList o.userId) s.accountOwners
    each checkBinding s.vaultBindings

/-! ## The store -/

structure CustomerPrincipal where
  userId : Text
  provider : CustomerIdentityProvider
  providerSubject : Text
  displayName : Text
  avatarUrl : Option Text
  email : Option Text
  emailVerified : Bool
  githubId : Option Nat
  githubLogin : Option Text
deriving DecidableEq

/-- What is known of a subject; `none` is what was not given. -/
structure IdentityInput where
  provider : CustomerIdentityProvider
  providerSubject : Text
  displayName : Text := []
  providerLogin : Option (Option Text) := none
  avatarUrl : Option (Option Text) := none
  email : Option (Option Text) := none
  emailVerified : Option Bool := none

structure CustomerIdentityStore where
  path : Text
  file : Option Snapshot := none
deriving DecidableEq

/-- The first element of a kind is changed. -/
def amend {α : Type} (p : α → Bool) (f : α → α) : List α → List α
  | [] => []
  | a :: l => if p a then f a :: l else a :: amend p f l

/-- The identity with what is known now of its subject. -/
def CustomerIdentityRecord.amended (i : CustomerIdentityRecord) (input : IdentityInput) : CustomerIdentityRecord :=
  { i with
    providerLogin := input.providerLogin.getD i.providerLogin
    email := input.email.getD i.email
    emailVerified := input.emailVerified.getD i.emailVerified }

def CustomerUserRecord.amended (u : CustomerUserRecord) (input : IdentityInput) : CustomerUserRecord :=
  { u with displayName := input.displayName, avatarUrl := input.avatarUrl.getD u.avatarUrl }

namespace Snapshot

variable (s : Snapshot)

/-- The identity of a subject. -/
def identity? (provider : CustomerIdentityProvider) (providerSubject : Text) : Option CustomerIdentityRecord :=
  s.identities.find? fun i => i.provider = provider && i.providerSubject = providerSubject

def principal (i : CustomerIdentityRecord) : Except Text CustomerPrincipal :=
  match s.users.find? (·.userId = i.userId) with
  | none => .error ("identity references unknown user ".toList ++ i.userId)
  | some user =>
    let github := s.identities.find? fun c => c.userId = i.userId && c.provider = .github
    .ok {
      userId := user.userId
      provider := i.provider
      providerSubject := i.providerSubject
      displayName := user.displayName
      avatarUrl := user.avatarUrl
      email := i.email
      emailVerified := i.emailVerified
      githubId := (github.bind fun g => Number.digits 10 g.providerSubject).filter (· < 2 ^ 53)
      githubLogin := ((github.bind (·.providerLogin)).map trim).filter (· ≠ []) }

/-- What is known of an identity is written. -/
def amendIdentity (i : CustomerIdentityRecord) (input : IdentityInput) : Snapshot :=
  { s with identities := amend (· = i) (·.amended input) s.identities }

def amendUser (user : CustomerUserRecord) (input : IdentityInput) : Snapshot :=
  { s with users := amend (· = user) (·.amended input) s.users }

end Snapshot

/-- A new identity. -/
def IdentityInput.record (input : IdentityInput) (userId providerSubject now : Text) : CustomerIdentityRecord where
  userId := userId
  provider := input.provider
  providerSubject := providerSubject
  providerLogin := input.providerLogin.getD none
  email := input.email.getD none
  emailVerified := input.emailVerified.getD false
  createdAt := now

variable (sha256 : Text → Text)

/-- `customerUserId`, of a subject that was trimmed, with SHA-256 in hexadecimal digits. -/
def customerUserId (provider : CustomerIdentityProvider) (providerSubject : Text) : Text :=
  "usr_".toList ++ (sha256 (provider.text ++ ":".toList ++ providerSubject)).take 24

/-- What a call answers, and the store behind it. -/
abbrev Outcome (α : Type) := Except Text α × CustomerIdentityStore

namespace CustomerIdentityStore

variable (store : CustomerIdentityStore)

def load : Except Text Snapshot :=
  match store.file with
  | none => .ok {}
  | some s =>
    match assertProviderNeutralCustomerSnapshot s with
    | .ok () => .ok s
    | .error _ => .error ("customer identity store is unreadable: ".toList ++ store.path)

/-- `save`, and the answer behind it. -/
def save {α : Type} (s : Snapshot) (answer : Except Text α) : Outcome α :=
  match assertProviderNeutralCustomerSnapshot s with
  | .error e => (.error e, store)
  | .ok () => (answer, { store with file := some s })

/-- A call on what is stored. -/
def reading {α : Type} (call : Snapshot → Outcome α) : Outcome α :=
  match store.load with
  | .error e => (.error e, store)
  | .ok s => call s

def resolve (provider : CustomerIdentityProvider) (providerSubject : Text) : Except Text (Option CustomerPrincipal) := do
  let s ← store.load
  match s.identity? provider providerSubject with
  | none => .ok none
  | some i => (s.principal i).map some

def resolveOrCreate (input : IdentityInput) (now : Text) : Outcome CustomerPrincipal :=
  let providerSubject := trim input.providerSubject
  if providerSubject = [] then (.error "provider_subject is required".toList, store)
  else store.reading fun s =>
    match s.identity? input.provider providerSubject with
    | some existing =>
      match s.users.find? (·.userId = existing.userId) with
      | none => (.error ("identity references unknown user ".toList ++ existing.userId), store)
      | some user =>
        let i := existing.amended input
        if i = existing ∧ user.amended input = user then (s.principal existing, store)
        else
          let s' := (s.amendIdentity existing input).amendUser user input
          store.save s' (s'.principal i)
    | none =>
      let userId := customerUserId sha256 input.provider providerSubject
      let user : CustomerUserRecord := ⟨userId, input.displayName, input.avatarUrl.getD none, now⟩
      let i := input.record userId providerSubject now
      let s' := { s with users := s.users ++ [user], identities := s.identities ++ [i] }
      store.save s' (s'.principal i)

def bindAccount (userId accountId now : Text) : Outcome CustomerAccountOwnerRecord :=
  store.reading fun s =>
    if s.users.all (·.userId ≠ userId) then (.error ("cannot bind account to unknown user ".toList ++ userId), store)
    else
      match s.accountOwners.find? (·.accountId = accountId) with
      | some existing =>
        if existing.userId ≠ userId then (.error "account is already owned by another user".toList, store)
        else (.ok existing, store)
      | none =>
        let owner : CustomerAccountOwnerRecord := ⟨userId, accountId, now⟩
        store.save { s with accountOwners := s.accountOwners ++ [owner] } (.ok owner)

def linkIdentity (userId : Text) (input : IdentityInput) (now : Text) : Outcome CustomerIdentityRecord :=
  store.reading fun s =>
    let providerSubject := trim input.providerSubject
    if s.users.all (·.userId ≠ userId) then (.error ("cannot link identity to unknown user ".toList ++ userId), store)
    else if providerSubject = [] then (.error "provider_subject is required".toList, store)
    else
      match s.identity? input.provider providerSubject with
      | some existing =>
        if existing.userId ≠ userId then (.error "provider identity is already linked to another user".toList, store)
        else
          let i := existing.amended input
          if i = existing then (.ok existing, store) else store.save (s.amendIdentity existing input) (.ok i)
      | none =>
        if s.identities.any fun c => c.userId = userId && c.provider = input.provider then
          (.error (input.provider.text ++ " is already linked to this user with a different subject".toList), store)
        else
          let i := input.record userId providerSubject now
          store.save { s with identities := s.identities ++ [i] } (.ok i)

def unlinkIdentity (userId : Text) (provider : CustomerIdentityProvider) : Outcome CustomerPrincipal :=
  store.reading fun s =>
    if s.identities.all fun c => c.userId ≠ userId || c.provider ≠ provider then
      (.error (provider.text ++ " identity is not linked".toList), store)
    else
      match s.identities.find? fun c => c.userId = userId && c.provider ≠ provider with
      | none => (.error "cannot unlink the last sign-in identity".toList, store)
      | some remaining =>
        let s' := { s with identities := s.identities.filter fun c => c.userId ≠ userId || c.provider ≠ provider }
        store.save s' (s'.principal remaining)

def ownerForAccount (accountId : Text) : Except Text (Option Text) :=
  store.load.map fun s => (s.accountOwners.find? (·.accountId = accountId)).map (·.userId)

end CustomerIdentityStore

/-! ## Runs -/

inductive Op
  | resolveOrCreate (input : IdentityInput) (now : Text)
  | linkIdentity (userId : Text) (input : IdentityInput) (now : Text)
  | unlinkIdentity (userId : Text) (provider : CustomerIdentityProvider)
  | bindAccount (userId accountId now : Text)

/-- Whether the call is accepted, and the store behind it. -/
def exec (store : CustomerIdentityStore) : Op → Bool × CustomerIdentityStore
  | .resolveOrCreate input now => (store.resolveOrCreate sha256 input now).map (·.isOk) id
  | .linkIdentity userId input now => (store.linkIdentity userId input now).map (·.isOk) id
  | .unlinkIdentity userId provider => (store.unlinkIdentity userId provider).map (·.isOk) id
  | .bindAccount userId accountId now => (store.bindAccount userId accountId now).map (·.isOk) id

def run : List Op → CustomerIdentityStore → CustomerIdentityStore
  | [], store => store
  | op :: ops, store => run ops (exec sha256 store op).2

end Zenod.Customers
