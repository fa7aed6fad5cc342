/-
What a tenant token is exchanged for: OAuth grants (`oauth.ts`,
`oauthSqliteStore.ts`) and signed session cookies (`index.ts`). Both carry a
copy of the tenant.
-/
import Zenod.Access.Tenants
import Zenod.Lib.Bytes

namespace Zenod.Access

open Keyed Text Bytes

def accessTtlMs : Int := 60 * 60 * 1000
def codeTtlMs : Int := 10 * 60 * 1000
def sessionTtlMs : Int := 7 * 24 * 60 * 60 * 1000

/-- What a unit is configured with, and the functions of the platform. -/
structure UnitConfig where
  /-- SHA-256, in hexadecimal digits. -/
  hashToken : Text → Text
  /-- HMAC-SHA-256 under the session secret, in hexadecimal digits. -/
  sign : Text → Text
  /-- The S256 code challenge of a verifier. -/
  challenge : Text → Text
  validRedirectUri : Text → Bool

/-! ## Grants -/

structure OAuthClient where
  clientId : Text
  clientName : Text
  redirectUris : List Text
  createdAt : Int
deriving DecidableEq

instance : Keyed OAuthClient where
  clash a b := a.clientId == b.clientId
  clash_symm _ _ := BEq.comm

structure OAuthAuthorizationCode where
  code : Text
  clientId : Text
  redirectUri : Text
  codeChallenge : Text
  resource : Text
  scope : Text
  tenant : TenantContext
  expiresAt : Int
deriving DecidableEq

instance : Keyed OAuthAuthorizationCode where
  clash a b := a.code == b.code
  clash_symm _ _ := BEq.comm

structure OAuthServerToken where
  accessToken : Text
  refreshToken : Text
  clientId : Text
  clientName : Text
  resource : Text
  scope : Text
  tenant : TenantContext
  expiresAt : Int
  createdAt : Int
deriving DecidableEq

instance : Keyed OAuthServerToken where
  clash a b := a.accessToken == b.accessToken || a.refreshToken == b.refreshToken
  clash_symm a b := by rw [BEq.comm, @BEq.comm _ _ _ a.refreshToken]

structure OAuthDb where
  clients : Table OAuthClient := .empty
  codes : Table OAuthAuthorizationCode := .empty
  tokens : Table OAuthServerToken := .empty
deriving DecidableEq

namespace OAuthDb

def getClient (db : OAuthDb) (clientId : Text) : Option OAuthClient := db.clients.rows.find? (·.clientId = clientId)

/-- `consumeCode`: the code is gone, whether it is good or not. -/
def consumeCode (db : OAuthDb) (code : Text) (now : Int) : Option OAuthAuthorizationCode × OAuthDb :=
  ((db.codes.rows.find? (·.code = code)).filter fun c => now ≤ c.expiresAt, { db with codes := db.codes.delete (·.code = code) })

def resolveOAuthAccessToken (db : OAuthDb) (accessToken : Text) (now : Int) : Option OAuthServerToken :=
  (db.tokens.rows.find? (·.accessToken = accessToken)).filter fun t => now ≤ t.expiresAt

def getByRefreshToken (db : OAuthDb) (refreshToken : Text) : Option OAuthServerToken :=
  db.tokens.rows.find? (·.refreshToken = refreshToken)

/-- `rotateAccessToken`: the grant lives on under a new access token. -/
def rotateAccessToken (db : OAuthDb) (refreshToken newAccessToken : Text) (expiresAt : Int) : OAuthDb :=
  match db.getByRefreshToken refreshToken with
  | none => db
  | some token =>
    match (db.tokens.delete (·.refreshToken = refreshToken)).insert? { token with accessToken := newAccessToken, expiresAt := expiresAt } with
    | some tokens => { db with tokens := tokens }
    | none => db

end OAuthDb

inductive OAuthError
  | redirectUris | redirectUri | missing | method | client | unregistered | invalidRedirectUri | tenantToken
  | code | mismatch | pkce | refresh
deriving DecidableEq

def OAuthError.message : OAuthError → Text
  | .redirectUris => "redirect_uris is required".toList
  | .redirectUri => "Use an HTTPS callback or an HTTP loopback callback without credentials or a fragment.".toList
  | .missing => "missing required parameters".toList
  | .method => "code_challenge_method must be S256".toList
  | .client => "unknown client_id".toList
  | .unregistered => "redirect_uri not registered for this client".toList
  | .invalidRedirectUri => "invalid redirect_uri".toList
  | .tenantToken => "That tenant token did not match.".toList
  | .code => "code invalid or expired".toList
  | .mismatch => "redirect_uri mismatch".toList
  | .pkce => "PKCE verification failed".toList
  | .refresh => "unknown refresh_token".toList

/-- A unit: its tenants and its grants. -/
structure UnitState where
  tenants : TenantDb := {}
  oauth : OAuthDb := {}
deriving DecidableEq

structure AuthorizeParams where
  clientId : Text
  redirectUri : Text
  codeChallenge : Text
  codeChallengeMethod : Text
  resource : Text
  scope : Text

/-- Who consents: the holder of a tenant token, or a browser session of the product. -/
inductive Approver
  | token (token : Text)
  | browser (tenant : TenantContext)

variable (unit : UnitConfig)

namespace UnitState

/-- `handleRegister`; the client id is drawn. -/
def handleRegister (s : UnitState) (redirectUris : List Text) (clientName : Option Text) (clientId : Text) (now : Int) :
    Except OAuthError UnitState :=
  if redirectUris = [] then throw .redirectUris
  else if redirectUris.all unit.validRedirectUri = false then throw .redirectUri
  else
    let name := (clientName.map (takeUnits 200)).filter (· ≠ [])
    let client : OAuthClient := ⟨clientId, name.getD "MCP client".toList, redirectUris, now⟩
    return { s with oauth := { s.oauth with clients := (s.oauth.clients.insert? client).getD s.oauth.clients } }

def validateAuthorize (s : UnitState) (p : AuthorizeParams) : Except OAuthError OAuthClient :=
  if p.clientId = [] ∨ p.redirectUri = [] ∨ p.codeChallenge = [] then throw .missing
  else if p.codeChallengeMethod ≠ "S256".toList then throw .method
  else
    match s.oauth.getClient p.clientId with
    | none => throw .client
    | some client =>
      if client.redirectUris.contains p.redirectUri = false then throw .unregistered
      else if unit.validRedirectUri p.redirectUri = false then throw .invalidRedirectUri
      else return client

/-- The record of a full-access tenant token: `resolveTenantToken`, and the check of the consent form. -/
def resolveTenantToken (s : UnitState) (token : Option Text) (now : Int) : Option TenantTokenRecord :=
  ((token.filter (· ≠ [])).bind fun token => s.tenants.resolveTokenHash (unit.hashToken token)).filter fun record =>
    record.isActive now && filled record.profile = none

/-- `handleAuthorizeDecision`, approved; the code is drawn. -/
def handleAuthorizeDecision (s : UnitState) (p : AuthorizeParams) (approver : Approver) (baseUrl code : Text) (now : Int) :
    Except OAuthError UnitState := do
  let _ ← s.validateAuthorize unit p
  let tenant ← match approver with
    | .browser tenant => pure tenant
    | .token token =>
      match s.resolveTenantToken unit (some (trim token)) now with
      | some record => pure record.tenant
      | none => throw .tenantToken
  let resource := if p.resource = [] then baseUrl ++ "/mcp".toList else p.resource
  let row : OAuthAuthorizationCode := ⟨code, p.clientId, p.redirectUri, p.codeChallenge, resource, p.scope, tenant, now + codeTtlMs⟩
  return { s with oauth := { s.oauth with codes := (s.oauth.codes.insert? row).getD s.oauth.codes } }

/-- `handleToken` for an authorization code; the two tokens are drawn. -/
def redeem (s : UnitState) (code verifier redirectUri access refresh : Text) (now : Int) : Except OAuthError Unit × UnitState :=
  let (authCode, oauth) := s.oauth.consumeCode code now
  let s := { s with oauth := oauth }
  match authCode with
  | none => (.error .code, s)
  | some authCode =>
    if authCode.redirectUri ≠ redirectUri then (.error .mismatch, s)
    else if verifier = [] ∨ unit.challenge verifier ≠ authCode.codeChallenge then (.error .pkce, s)
    else
      let clientName := ((s.oauth.getClient authCode.clientId).map (·.clientName)).getD "MCP client".toList
      let token : OAuthServerToken := ⟨access, refresh, authCode.clientId, clientName, authCode.resource, authCode.scope,
        authCode.tenant, now + accessTtlMs, now⟩
      (.ok (), { s with oauth := { s.oauth with tokens := (s.oauth.tokens.insert? token).getD s.oauth.tokens } })

/-- `handleToken` for a refresh token; the access token is drawn. -/
def refresh (s : UnitState) (refreshToken access : Text) (now : Int) : Except OAuthError UnitState :=
  match s.oauth.getByRefreshToken refreshToken with
  | none => .error .refresh
  | some _ => .ok { s with oauth := s.oauth.rotateAccessToken refreshToken access (now + accessTtlMs) }

end UnitState

/-! ## Sessions -/

structure UiSessionPayload where
  expires : Rat
  tenant : TenantContext

def tenantJson (tenant : TenantContext) : Json :=
  Json.object [("id".toList, some (.str tenant.id)), ("name".toList, tenant.name.map .str), ("plan".toList, tenant.plan.map .str),
    ("quota".toList, tenant.quota.map .num)]

def encodeSessionPayload (expires : Int) (tenant : TenantContext) : Text :=
  toBase64 (utf8 (Json.obj [("expires".toList, .num (.ofInt expires)), ("tenant".toList, tenantJson tenant)]).print)

/-- The text under a key, if it is one. -/
def textAt (v : Json) (key : Text) : Option Text :=
  match v.field? key with
  | some (.str t) => some t
  | _ => none

/-- The number under a key, if it is one. -/
def numberAt (v : Json) (key : Text) : Option JsonNumber :=
  match v.field? key with
  | some (.num n) => some n
  | _ => none

def decodeSessionPayload (encoded : Text) : Option UiSessionPayload := do
  let value ← Json.parse (decodeUtf8 (fromBase64 encoded))
  let expires ← numberAt value "expires".toList
  let tenant ← value.field? "tenant".toList
  let id ← textAt tenant "id".toList
  if trim id = [] then none
  else return {
    expires := expires.value
    tenant := { id := id, name := textAt tenant "name".toList, plan := textAt tenant "plan".toList, quota := numberAt tenant "quota".toList } }

/-- `issueTenantSession`: the cookie. -/
def issueTenantSession (tenant : TenantContext) (now : Int) : Text :=
  let payload := encodeSessionPayload (now + sessionTtlMs) tenant
  payload ++ '.' :: unit.sign payload

def resolveTenantSession (cookie : Option Text) (now : Int) : Option TenantContext := do
  let cookie ← cookie.filter (· ≠ [])
  match cookie.splitOn '.' with
  | payload :: mac :: _ =>
    if payload = [] ∨ mac = [] ∨ mac ≠ unit.sign payload then none
    else
      let decoded ← decodeSessionPayload payload
      if decoded.expires < now then none else return decoded.tenant
  | _ => none

end Zenod.Access
