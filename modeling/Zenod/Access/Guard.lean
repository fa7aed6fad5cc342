/-
Who a request is taken for, and runs of a unit.

`access_ends_iff`: in a run, no request is taken for a tenant whose access has
ended, exactly when no request falls back on a grant or a session cookie that
names such a tenant.
-/
import Zenod.Access.OAuth

namespace Zenod.Access

open Keyed Text Bytes

/-- What a request presents. -/
structure Request where
  authorization : Option Text := none
  path : Option Text := none
  cookie : Option Text := none

namespace Request

def bearerToken (r : Request) : Option Text :=
  (r.authorization.filter fun header => startsWith header "Bearer ".toList).bind fun header => filled (some (header.drop 7))

def pathToken (r : Request) : Option Text := filled r.path

def presentedToken (r : Request) : Option Text := r.bearerToken <|> r.pathToken

/-- The request presents two different tokens. -/
def mismatched (r : Request) : Bool := r.bearerToken.any fun bearer => r.pathToken.any (· ≠ bearer)

end Request

structure AuthenticatedTenantCredential where
  tenant : TenantContext
  profile : Option Text
deriving DecidableEq

/-- The guards of a unit: `requireTenantAuth`, `requireUiTenant`, and that of the product routes. -/
inductive Guard | mcp | ui | route
deriving DecidableEq

variable (unit : UnitConfig)

namespace UnitState

/-- The record of the token that the request presents, if it is active. -/
def activeRecord (s : UnitState) (r : Request) (now : Int) : Option TenantTokenRecord :=
  (r.presentedToken.bind fun token => s.tenants.resolveTokenHash (unit.hashToken token)).filter (·.isActive now)

/-- The grant of the bearer's access token, if it has not run out. -/
def grant (s : UnitState) (r : Request) (now : Int) : Option OAuthServerToken :=
  (r.bearerToken.bind fun bearer => s.oauth.resolveOAuthAccessToken bearer now).filter fun t => now < t.expiresAt

def resolveAuthenticatedTenant (s : UnitState) (r : Request) (now : Int) : Option AuthenticatedTenantCredential :=
  if r.mismatched then none
  else
    match s.activeRecord unit r now with
    | some record => some ⟨record.tenant, filled record.profile⟩
    | none => (s.grant r now).map fun t => ⟨t.tenant, none⟩

/-- The tenant that a guard takes the request for. -/
def authenticate (s : UnitState) (r : Request) (now : Int) : Guard → Option TenantContext
  | .mcp => (s.resolveAuthenticatedTenant unit r now).map (·.tenant)
  | .ui => ((s.resolveTenantToken unit r.bearerToken now).map (·.tenant)) <|> resolveTenantSession unit r.cookie now
  | .route =>
    match s.resolveAuthenticatedTenant unit r now with
    | some credential => if credential.profile = none then some credential.tenant else none
    | none => resolveTenantSession unit r.cookie now

end UnitState

/-! ## Runs -/

/-- What happens to a unit, at a clock reading; tokens, codes and ids that are drawn are given. -/
inductive Action
  | provision (input : TenantDb.ProvisionTenantInput) (generated : Text)
  | importHash (tokenHash : Text) (tenant : TenantContext) (status : Option TenantStatus) (expiresAt : Option Int)
  | rotate (tenantId generated : Text)
  | provisionToken (tenantId profile generated : Text)
  | ensureToken (tenantId profile token : Text)
  | setStatus (tenantId : Text) (status : TenantStatus)
  | preserve (tenantId tokenHash : Text)
  | register (redirectUris : List Text) (clientName : Option Text) (clientId : Text)
  | approve (p : AuthorizeParams) (approver : Approver) (baseUrl code : Text)
  | redeem (code verifier redirectUri access refresh : Text)
  | refresh (refreshToken access : Text)
  /-- A session is started for a full-access token; the cookie goes to the client. -/
  | login (token : Text)
  | request (guard : Guard) (r : Request)
  /-- `/api/token/regenerate`, behind the guard of the UI. -/
  | regenerate (r : Request) (generated : Text)

structure Step where
  action : Action
  now : Int

/-- The request that a step guards. -/
def Action.guarded : Action → Option (Guard × Request)
  | .request guard r => some (guard, r)
  | .regenerate r _ => some (.ui, r)
  | _ => none

namespace UnitState

/-- The tenants after a transaction, if it was made. -/
def withTenants {ε α : Type} (s : UnitState) (result : Except ε (α × TenantDb)) : UnitState :=
  (result.toOption.map fun r => { s with tenants := r.2 }).getD s

def withTenants? {ε : Type} (s : UnitState) (result : Except ε (Option TenantDb)) : UnitState :=
  (result.toOption.join.map fun db => { s with tenants := db }).getD s

/-- The tenants after a transaction that finds its tenant or not. -/
def written {ε α : Type} (result : Except ε (Option (α × TenantDb))) : Except ε (Option TenantDb) := (·.map (·.2)) <$> result

def after (s : UnitState) (step : Step) : UnitState :=
  match step.action with
  | .provision input generated => s.withTenants (s.tenants.provisionTenant unit.hashToken input generated)
  | .importHash tokenHash tenant status expiresAt =>
    s.withTenants (s.tenants.importTenantTokenHash tokenHash tenant status expiresAt)
  | .rotate tenantId generated => s.withTenants? (written (s.tenants.rotateTenantToken unit.hashToken tenantId generated))
  | .provisionToken tenantId profile generated =>
    s.withTenants? (written (s.tenants.provisionTenantToken unit.hashToken tenantId profile generated))
  | .ensureToken tenantId profile token => s.withTenants? (s.tenants.ensureTenantToken unit.hashToken tenantId profile token)
  | .setStatus tenantId status => s.withTenants? (written (s.tenants.setTenantStatus tenantId status))
  | .preserve tenantId tokenHash => s.withTenants? (s.tenants.preserveTenantTokenHash tenantId tokenHash)
  | .register redirectUris clientName clientId => (s.handleRegister unit redirectUris clientName clientId step.now).toOption.getD s
  | .approve p approver baseUrl code => (s.handleAuthorizeDecision unit p approver baseUrl code step.now).toOption.getD s
  | .redeem code verifier redirectUri access refresh => (s.redeem unit code verifier redirectUri access refresh step.now).2
  | .refresh refreshToken access => (s.refresh refreshToken access step.now).toOption.getD s
  | .login _ => s
  | .request _ _ => s
  | .regenerate r generated =>
    match s.authenticate unit r step.now .ui with
    | some tenant => s.withTenants? (written (s.tenants.rotateTenantToken unit.hashToken tenant.id generated))
    | none => s

/-- Each step meets the condition in the state it is made in. -/
def Along (meets : UnitState → Step → Prop) : List Step → UnitState → Prop
  | [], _ => True
  | step :: steps, s => meets s step ∧ Along meets steps (s.after unit step)

/-- No request is taken for a tenant whose access has ended. -/
def Excludes (s : UnitState) (step : Step) : Prop :=
  ∀ guard r, step.action.guarded = some (guard, r) → ∀ tenant, s.authenticate unit r step.now guard = some tenant →
    ¬s.tenants.Ended tenant.id step.now

/-- No active tenant token of the kind that the guard asks for, and a credential that names a tenant whose access has
ended: a grant, or a session cookie. -/
def Lingers (s : UnitState) (r : Request) (now : Int) : Guard → Prop
  | .mcp => r.mismatched = false ∧ s.activeRecord unit r now = none ∧
      ∃ t, s.grant r now = some t ∧ s.tenants.Ended t.tenant.id now
  | .ui => s.resolveTenantToken unit r.bearerToken now = none ∧
      ∃ tenant, resolveTenantSession unit r.cookie now = some tenant ∧ s.tenants.Ended tenant.id now
  | .route =>
      (r.mismatched = false ∧ s.activeRecord unit r now = none ∧ ∃ t, s.grant r now = some t ∧ s.tenants.Ended t.tenant.id now) ∨
      ((r.mismatched = true ∨ s.activeRecord unit r now = none ∧ s.grant r now = none) ∧
        ∃ tenant, resolveTenantSession unit r.cookie now = some tenant ∧ s.tenants.Ended tenant.id now)

/-- The request does not fall back on a credential of a tenant whose access has ended. -/
def Current (s : UnitState) (step : Step) : Prop :=
  ∀ guard r, step.action.guarded = some (guard, r) → ¬s.Lingers unit r step.now guard

end UnitState

/-! ## Tenant tokens -/

variable {unit} {s : UnitState} {r : Request} {now : Int}

/-- **A tenant token is of a tenant that has access.** -/
theorem activeRecord_current {record : TenantTokenRecord} (h : s.activeRecord unit r now = some record) :
    ¬s.tenants.Ended record.tenant.id now := by
  unfold UnitState.activeRecord at h
  rw [Option.filter_eq_some_iff] at h
  obtain ⟨token, -, hresolve⟩ := Option.bind_eq_some_iff.1 h.1
  exact not_ended_of_active hresolve h.2

theorem tenantToken_current {token : Option Text} {record : TenantTokenRecord} (h : s.resolveTenantToken unit token now = some record) :
    ¬s.tenants.Ended record.tenant.id now := by
  unfold UnitState.resolveTenantToken at h
  rw [Option.filter_eq_some_iff, Bool.and_eq_true] at h
  obtain ⟨hfound, hactive, -⟩ := h
  obtain ⟨token, -, hresolve⟩ := Option.bind_eq_some_iff.1 hfound
  exact not_ended_of_active hresolve hactive

/-! ## Guards -/

/-- Who `resolveAuthenticatedTenant` takes a request for: the tenant of its token, or that of its grant. -/
theorem resolveAuthenticatedTenant_eq_some {credential : AuthenticatedTenantCredential} :
    s.resolveAuthenticatedTenant unit r now = some credential ↔ r.mismatched = false ∧
      ((∃ record, s.activeRecord unit r now = some record ∧ credential = ⟨record.tenant, filled record.profile⟩) ∨
        s.activeRecord unit r now = none ∧ ∃ t, s.grant r now = some t ∧ credential = ⟨t.tenant, none⟩) := by
  unfold UnitState.resolveAuthenticatedTenant
  cases hmismatch : r.mismatched with
  | true => simp
  | false =>
    cases hrecord : s.activeRecord unit r now with
    | some record => simp [eq_comm]
    | none => simp [eq_comm]

theorem resolveAuthenticatedTenant_eq_none :
    s.resolveAuthenticatedTenant unit r now = none ↔
      r.mismatched = true ∨ s.activeRecord unit r now = none ∧ s.grant r now = none := by
  unfold UnitState.resolveAuthenticatedTenant
  cases hmismatch : r.mismatched with
  | true => simp
  | false =>
    cases hrecord : s.activeRecord unit r now with
    | some record => simp
    | none => simp

/-- **A guard lets in a tenant whose access has ended** exactly when the request falls back on its grant or its session. -/
theorem authenticate_ended_iff (guard : Guard) :
    (∃ tenant, s.authenticate unit r now guard = some tenant ∧ s.tenants.Ended tenant.id now) ↔ s.Lingers unit r now guard := by
  cases guard with
  | mcp =>
    constructor
    · rintro ⟨tenant, hauth, hended⟩
      obtain ⟨credential, hcredential, rfl⟩ := Option.map_eq_some_iff.1 hauth
      obtain ⟨hmatch, ⟨record, hrecord, rfl⟩ | ⟨hnone, t, ht, rfl⟩⟩ := resolveAuthenticatedTenant_eq_some.1 hcredential
      · exact absurd hended (activeRecord_current hrecord)
      · exact ⟨hmatch, hnone, t, ht, hended⟩
    · rintro ⟨hmatch, hnone, t, ht, hended⟩
      exact ⟨t.tenant, Option.map_eq_some_iff.2 ⟨_, resolveAuthenticatedTenant_eq_some.2 ⟨hmatch, Or.inr ⟨hnone, t, ht, rfl⟩⟩, rfl⟩,
        hended⟩
  | ui =>
    constructor
    · rintro ⟨tenant, hauth, hended⟩
      rcases (Option.orElse_eq_some _ _ _).1 hauth with htoken | ⟨hnone, hsession⟩
      · obtain ⟨record, hrecord, rfl⟩ := Option.map_eq_some_iff.1 htoken
        exact absurd hended (tenantToken_current hrecord)
      · exact ⟨Option.map_eq_none_iff.1 hnone, tenant, hsession, hended⟩
    · rintro ⟨hnone, tenant, hsession, hended⟩
      exact ⟨tenant, (Option.orElse_eq_some _ _ _).2 (Or.inr ⟨Option.map_eq_none_iff.2 hnone, hsession⟩), hended⟩
  | route =>
    simp only [UnitState.authenticate, UnitState.Lingers, ← resolveAuthenticatedTenant_eq_none]
    constructor
    · rintro ⟨tenant, hauth, hended⟩
      split at hauth
      next credential hcredential =>
        obtain ⟨hmatch, ⟨record, hrecord, rfl⟩ | ⟨hnone, t, ht, rfl⟩⟩ := resolveAuthenticatedTenant_eq_some.1 hcredential
        · split at hauth
          next =>
            obtain rfl := Option.some.inj hauth
            exact absurd hended (activeRecord_current hrecord)
          next => cases hauth
        · rw [if_pos rfl] at hauth
          obtain rfl := Option.some.inj hauth
          exact Or.inl ⟨hmatch, hnone, t, ht, hended⟩
      next hnone => exact Or.inr ⟨hnone, tenant, hauth, hended⟩
    · rintro (⟨hmatch, hnone, t, ht, hended⟩ | ⟨hnone, tenant, hsession, hended⟩)
      · have hcredential : s.resolveAuthenticatedTenant unit r now = some ⟨t.tenant, none⟩ :=
          resolveAuthenticatedTenant_eq_some.2 ⟨hmatch, Or.inr ⟨hnone, t, ht, rfl⟩⟩
        refine ⟨t.tenant, ?_, hended⟩
        simp only [hcredential, if_true]
      · refine ⟨tenant, ?_, hended⟩
        simp only [hnone]
        exact hsession

theorem excludes_iff_current (step : Step) : s.Excludes unit step ↔ s.Current unit step := by
  unfold UnitState.Excludes UnitState.Current
  refine forall_congr' fun guard => forall_congr' fun r => forall_congr' fun _ => ?_
  rw [← authenticate_ended_iff]
  constructor
  · rintro h ⟨tenant, hauth, hended⟩
    exact h tenant hauth hended
  · intro h tenant hauth hended
    exact h ⟨tenant, hauth, hended⟩

variable (unit)

/-- **A tenant's access ends with its status**, in a run, exactly when no request of the run falls back on a grant or a
session cookie that names a tenant whose access has ended. -/
theorem access_ends_iff (s : UnitState) (steps : List Step) :
    UnitState.Along unit (UnitState.Excludes unit) steps s ↔ UnitState.Along unit (UnitState.Current unit) steps s := by
  induction steps generalizing s with
  | nil => exact Iff.rfl
  | cons step steps ih => exact and_congr (excludes_iff_current step) (ih _)

/-! ## A suspended tenant -/

/-- The octets of a text in hexadecimal digits, as many as a digest has. -/
def octetDigest (t : Text) : Text :=
  (((utf8 t).flatMap fun b => [Js.hexDigit (b / 16), Js.hexDigit (b % 16)]) ++ List.replicate 64 '0').take 64

def octetUnit : UnitConfig := ⟨octetDigest, octetDigest, octetDigest, fun _ => true⟩

def acme : TenantContext := { id := "acme".toList }

def consent : AuthorizeParams :=
  ⟨"c1".toList, "https://app".toList, octetDigest "v".toList, "S256".toList, [], "mcp".toList⟩

/-- The tenant logs in, is suspended, and comes back with its cookie. -/
def returning : List Step := [
  ⟨.provision { tenantId := some acme.id, token := some "t".toList } [], 0⟩,
  ⟨.login "t".toList, 0⟩,
  ⟨.setStatus acme.id .suspended, 1⟩,
  ⟨.request .ui { cookie := some (issueTenantSession octetUnit acme 0) }, 2⟩]

/-- The tenant connects an agent and is suspended; the agent refreshes its access token and comes back. -/
def refreshing : List Step := [
  ⟨.provision { tenantId := some acme.id, token := some "t".toList } [], 0⟩,
  ⟨.register ["https://app".toList] none "c1".toList, 0⟩,
  ⟨.approve consent (.token "t".toList) "https://unit".toList "k".toList, 0⟩,
  ⟨.redeem "k".toList "v".toList "https://app".toList "a1".toList "r1".toList, 0⟩,
  ⟨.setStatus acme.id .suspended, 1⟩,
  ⟨.refresh "r1".toList "a2".toList, 7200000⟩,
  ⟨.request .mcp { authorization := some "Bearer a2".toList }, 7200001⟩]

/-- **A suspended tenant comes back** with its session, and with a grant that it refreshes. -/
theorem suspended_comes_back :
    ¬UnitState.Along octetUnit (UnitState.Excludes octetUnit) returning {} ∧
      ¬UnitState.Along octetUnit (UnitState.Excludes octetUnit) refreshing {} := by
  constructor
  · rintro ⟨-, -, -, hexcludes, -⟩
    exact hexcludes _ _ rfl acme (by decide +kernel) (by decide +kernel)
  · rintro ⟨-, -, -, -, -, -, hexcludes, -⟩
    exact hexcludes _ _ rfl acme (by decide +kernel) (by decide +kernel)

end Zenod.Access
