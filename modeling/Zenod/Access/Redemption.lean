/-
Token and provider-callback requests (`handleToken`, `handleProviderCallback`
in `oauth.ts`) of several processes over one grant database
(`oauthSqliteStore.ts`). A request is a sequence of statements, and any other
request may run between two of them: consuming is a read and then a delete.

`grants_redeemed_once`: as long as what a request consumes still lies there
when it deletes it, every code and every provider state is used once.
-/
import Zenod.Access.OAuth
import Zenod.Lib.Interleave
import Zenod.Lib.OneTime

namespace Zenod.Access

open Keyed Text

/-! ## The code -/

structure OAuthProviderState where
  state : Text
  providerId : Text
  tenantId : Text
  redirectUri : Text
  expiresAt : Int
deriving DecidableEq

instance : Keyed OAuthProviderState where
  clash a b := a.state == b.state
  clash_symm _ _ := BEq.comm

/-- The form of a token request. -/
inductive TokenForm
  | authorizationCode (code verifier redirectUri : Text)
  | refreshToken (refresh : Text)
  | otherGrant

/-- The query of a provider's callback. -/
structure CallbackQuery where
  providerId : Text
  error : Text
  code : Text
  state : Text
  tenantId : Text
deriving DecidableEq

/-- An authorization code that passed its checks, with what it was presented with and when. -/
structure Redemption where
  authCode : OAuthAuthorizationCode
  verifier : Text
  redirectUri : Text
  checkedAt : Int
deriving DecidableEq

inductive GrantAnswer
  | tokens (access refresh scope : Text)
  | refused (error : OAuthError)
  | invalidRequest | unsupportedGrantType
  | providerError (description : Text)
  | invalidState | tenantMismatch
  | connected (providerId tenantId : Text)
  | thrown
deriving DecidableEq

inductive GrantCall
  | token (form : Option TokenForm)
  | callback (query : CallbackQuery)
  | createCode (row : OAuthAuthorizationCode)
  | createProviderState (row : OAuthProviderState)

/-- What is left of a request between two statements. -/
inductive GrantFrame
  | codeRead (row : Option OAuthAuthorizationCode) (code verifier redirectUri : Text)
  | redeemed (r : Redemption)
  | named (r : Redemption) (clientName : Text)
  | refreshRead (refresh scope : Text)
  | stateRead (row : Option OAuthProviderState) (query : CallbackQuery)
  | exchanging (entry : OAuthProviderState)
deriving DecidableEq

/-- The clock at a statement (for a new grant, twice), the tokens drawn, and whether the provider exchanged the code. -/
structure GrantReply where
  now : Int
  createdAt : Int := now
  access : Text := []
  refresh : Text := []
  exchanged : Bool := true

/-- The database; and what has happened: the codes and states ever made, the grants, the exchanges, the tokens returned
(refresh and access), and the answers. -/
structure GrantState where
  oauth : OAuthDb
  states : Table OAuthProviderState
  codesMade : List OAuthAuthorizationCode
  statesMade : List OAuthProviderState
  granted : List Redemption := []
  exchanges : List OAuthProviderState := []
  returned : List (Text × Text) := []
  answers : List GrantAnswer := []
deriving DecidableEq

/-- `UPDATE oauth_tokens SET access_token WHERE refresh_token`; it throws when another row has the access token. -/
def OAuthDb.rotate? (db : OAuthDb) (refreshToken newAccessToken : Text) (expiresAt : Int) : Option OAuthDb :=
  match db.getByRefreshToken refreshToken with
  | none => some db
  | some token =>
    ((db.tokens.delete (·.refreshToken = refreshToken)).insert?
      { token with accessToken := newAccessToken, expiresAt := expiresAt }).map fun tokens => { db with tokens := tokens }

theorem rotateAccessToken_eq (db : OAuthDb) (refreshToken newAccessToken : Text) (expiresAt : Int) :
    db.rotateAccessToken refreshToken newAccessToken expiresAt =
      (db.rotate? refreshToken newAccessToken expiresAt).getD db := by
  unfold OAuthDb.rotateAccessToken OAuthDb.rotate?
  cases db.getByRefreshToken refreshToken with
  | none => rfl
  | some token =>
    simp only []
    split
    next h => rw [h]; rfl
    next h => rw [h]; rfl

def GrantState.answer (s : GrantState) (a : GrantAnswer) : GrantState := { s with answers := s.answers ++ [a] }

variable (unit : UnitConfig)

/-- The checks of a code that was there. -/
def redeemable (authCode : OAuthAuthorizationCode) (verifier redirectUri : Text) (now : Int) : Bool :=
  decide (now ≤ authCode.expiresAt) && authCode.redirectUri == redirectUri && verifier != [] &&
    unit.challenge verifier == authCode.codeChallenge

/-- The checks of a provider state that was there. -/
def exchangeable (entry : OAuthProviderState) (query : CallbackQuery) (now : Int) : Bool :=
  decide (now ≤ entry.expiresAt) && query.code != [] && entry.providerId == query.providerId &&
    query.tenantId == entry.tenantId

/-- Up to the first statement, and with it. -/
def beginGrant (c : GrantCall) (s : GrantState) : GrantState × Option GrantFrame :=
  match c with
  | .token none => (s.answer .invalidRequest, none)
  | .token (some (.authorizationCode code verifier redirectUri)) =>
    (s, some (.codeRead (s.oauth.codes.rows.find? (·.code = code)) code verifier redirectUri))
  | .token (some (.refreshToken refresh)) =>
    match s.oauth.getByRefreshToken refresh with
    | none => (s.answer (.refused .refresh), none)
    | some existing => (s, some (.refreshRead refresh existing.scope))
  | .token (some .otherGrant) => (s.answer .unsupportedGrantType, none)
  | .callback query =>
    if query.error ≠ [] then (s.answer (.providerError query.error), none)
    else if query.state = [] then (s.answer .invalidState, none)
    else (s, some (.stateRead (s.states.rows.find? (·.state = query.state)) query))
  | .createCode row =>
    match s.oauth.codes.insert? row with
    | some codes => ({ s with oauth := { s.oauth with codes := codes }, codesMade := s.codesMade ++ [row] }, none)
    | none => (s.answer .thrown, none)
  | .createProviderState row =>
    match s.states.insert? row with
    | some states => ({ s with states := states, statesMade := s.statesMade ++ [row] }, none)
    | none => (s.answer .thrown, none)

/-- The next statement, and on to the one behind it. -/
def resumeGrant (f : GrantFrame) (r : GrantReply) (s : GrantState) : GrantState × Option GrantFrame :=
  match f with
  | .codeRead row code verifier redirectUri =>
    let s := { s with oauth := { s.oauth with codes := s.oauth.codes.delete (·.code = code) } }
    match row.filter fun row => r.now ≤ row.expiresAt with
    | none => (s.answer (.refused .code), none)
    | some authCode =>
      if authCode.redirectUri ≠ redirectUri then (s.answer (.refused .mismatch), none)
      else if verifier = [] ∨ unit.challenge verifier ≠ authCode.codeChallenge then (s.answer (.refused .pkce), none)
      else (s, some (.redeemed ⟨authCode, verifier, redirectUri, r.now⟩))
  | .redeemed red =>
    (s, some (.named red (((s.oauth.getClient red.authCode.clientId).map (·.clientName)).getD "MCP client".toList)))
  | .named red clientName =>
    let token : OAuthServerToken := ⟨r.access, r.refresh, red.authCode.clientId, clientName, red.authCode.resource,
      red.authCode.scope, red.authCode.tenant, r.now + accessTtlMs, r.createdAt⟩
    match s.oauth.tokens.insert? token with
    | some tokens =>
      ({ s with oauth := { s.oauth with tokens := tokens }, granted := s.granted ++ [red], returned := s.returned ++ [(r.refresh, r.access)] }.answer
        (.tokens r.access r.refresh red.authCode.scope), none)
    | none => (s.answer .thrown, none)
  | .refreshRead refresh scope =>
    match s.oauth.rotate? refresh r.access (r.now + accessTtlMs) with
    | some oauth =>
      ({ s with oauth := oauth, returned := s.returned ++ [(refresh, r.access)] }.answer (.tokens r.access refresh scope), none)
    | none => (s.answer .thrown, none)
  | .stateRead row query =>
    let s := { s with states := s.states.delete (·.state = query.state) }
    match row.filter fun row => r.now ≤ row.expiresAt with
    | none => (s.answer .invalidState, none)
    | some entry =>
      if query.code = [] ∨ entry.providerId ≠ query.providerId then (s.answer .invalidState, none)
      else if query.tenantId ≠ entry.tenantId then (s.answer .tenantMismatch, none)
      else ({ s with exchanges := s.exchanges ++ [entry] }, some (.exchanging entry))
  | .exchanging entry =>
    if r.exchanged then (s.answer (.connected entry.providerId entry.tenantId), none) else (s.answer .thrown, none)

def grants : Interleaving GrantState GrantCall GrantFrame GrantReply where
  start := beginGrant
  resume := resumeGrant unit

abbrev GrantConfig := Interleaving.Config GrantState GrantFrame
abbrev GrantMove := Interleaving.Move GrantCall GrantFrame GrantReply

/-- A request that no other interrupts. -/
def alone (c : GrantCall) (r : GrantReply) (s : GrantState) : GrantState :=
  let next := fun (p : GrantState × Option GrantFrame) =>
    match p.2 with
    | none => p
    | some f => resumeGrant unit f r p.1
  (next (next (next (beginGrant c s)))).1

/-- **Alone, a request is the single step** that sequences of requests are made of. -/
theorem alone_redeem (u : UnitState) (s : GrantState) (hs : s.oauth = u.oauth) (code verifier redirectUri : Text)
    (r : GrantReply) (hr : r.createdAt = r.now) :
    (alone unit (.token (some (.authorizationCode code verifier redirectUri))) r s).oauth =
      (u.redeem unit code verifier redirectUri r.access r.refresh r.now).2.oauth := by
  unfold alone UnitState.redeem OAuthDb.consumeCode
  simp only [beginGrant, resumeGrant, hs]
  cases (u.oauth.codes.rows.find? (·.code = code)).filter fun c => r.now ≤ c.expiresAt with
  | none => rfl
  | some authCode =>
    by_cases huri : authCode.redirectUri = redirectUri
    · by_cases hpkce : verifier = [] ∨ unit.challenge verifier ≠ authCode.codeChallenge
      · simp only [huri, hpkce, ne_eq, not_true_eq_false, if_false, if_true]
        rfl
      · simp only [huri, hpkce, hr, ne_eq, not_true_eq_false, if_false]
        cases Table.insert? u.oauth.tokens _ <;> rfl
    · simp only [huri, ne_eq, not_false_eq_true, if_true]
      rfl

/-! ## What a run keeps -/

/-- The redemption that a request on its way has reached. -/
def redemptionOf : GrantFrame → Option Redemption
  | .redeemed r => some r
  | .named r _ => some r
  | _ => none

/-- The codes that were redeemed, or whose redemption is on its way. -/
def spentCodes (w : GrantConfig) : Multiset Text :=
  ((w.state.granted : Multiset Redemption) + w.pending.filterMap redemptionOf).map (·.authCode.code)

def spentStates (w : GrantConfig) : Multiset Text := (w.state.exchanges : Multiset OAuthProviderState).map (·.state)

/-- A code was redeemed with what it was made for, in its time. -/
def Honoured (s : GrantState) (r : Redemption) : Prop :=
  r.authCode ∈ s.codesMade ∧ r.redirectUri = r.authCode.redirectUri ∧ r.verifier ≠ [] ∧
    unit.challenge r.verifier = r.authCode.codeChallenge ∧ r.checkedAt ≤ r.authCode.expiresAt

/-- The access token that a refresh token was last returned with. -/
def lastAccess (returned : List (Text × Text)) (refresh : Text) : Option Text :=
  ((returned.filter (·.1 = refresh)).getLast?).map (·.2)

/-- The codes and the states that are made are new ones. -/
def NewGrants (w : GrantConfig) : GrantMove → Prop
  | .call (.createCode row) => ∀ made ∈ w.state.codesMade, made.code ≠ row.code
  | .call (.createProviderState row) => ∀ made ∈ w.state.statesMade, made.state ≠ row.state
  | _ => True

/-- **What is consumed still lies there**: no other request has deleted what this one read. -/
def StillThere (w : GrantConfig) : GrantMove → Prop
  | .resume (.codeRead (some row) _ verifier redirectUri) r =>
    redeemable unit row verifier redirectUri r.now = true → ∃ x ∈ w.state.oauth.codes.rows, x.code = row.code
  | .resume (.stateRead (some row) query) r =>
    exchangeable row query r.now = true → ∃ x ∈ w.state.states.rows, x.state = row.state
  | _ => True

/-- What a request on its way may rely on. -/
def FrameOk (s : GrantState) : GrantFrame → Prop
  | .codeRead (some row) code _ _ => row ∈ s.codesMade ∧ row.code = code
  | .codeRead none _ _ _ => True
  | .redeemed r => Honoured unit s r
  | .named r _ => Honoured unit s r
  | .refreshRead refresh _ => ∃ t ∈ s.oauth.tokens.rows, t.refreshToken = refresh
  | .stateRead (some row) query => row.state = query.state
  | .stateRead none _ => True
  | .exchanging _ => True

/-- **What holds in every run**: what is redeemed is honoured, and a refresh token has the access token that it was last
returned with. -/
structure Recorded (w : GrantConfig) : Prop where
  codes : ∀ row ∈ w.state.oauth.codes.rows, row ∈ w.state.codesMade
  granted : ∀ r ∈ w.state.granted, Honoured unit w.state r
  pending : ∀ f ∈ w.pending, FrameOk unit w.state f
  last : ∀ refresh access, lastAccess w.state.returned refresh = some access →
    ∃ t ∈ w.state.oauth.tokens.rows, t.refreshToken = refresh ∧ t.accessToken = access

def codesOf (rows : List OAuthAuthorizationCode) : Set Text := { k | ∃ row ∈ rows, row.code = k }

def statesOf (rows : List OAuthProviderState) : Set Text := { k | ∃ row ∈ rows, row.state = k }

/-- Codes and states are used once. -/
structure UsedOnce (w : GrantConfig) : Prop where
  codes : OneTime (codesOf w.state.codesMade) (codesOf w.state.oauth.codes.rows) (spentCodes w)
  states : OneTime (statesOf w.state.statesMade) (statesOf w.state.states.rows) (spentStates w)

/-! ## What a segment does -/

variable {unit} {s : GrantState} {w : GrantConfig}

/-- The code is deleted; the redemption goes on if the checks pass. -/
theorem codeRead_cases (row : Option OAuthAuthorizationCode) (code verifier redirectUri : Text) (r : GrantReply)
    (s : GrantState) :
    (∃ a, resumeGrant unit (.codeRead row code verifier redirectUri) r s =
      (({ s with oauth := { s.oauth with codes := s.oauth.codes.delete (·.code = code) } } : GrantState).answer a, none)) ∨
    ∃ x, row = some x ∧ redeemable unit x verifier redirectUri r.now = true ∧
      resumeGrant unit (.codeRead row code verifier redirectUri) r s =
        ({ s with oauth := { s.oauth with codes := s.oauth.codes.delete (·.code = code) } },
          some (.redeemed ⟨x, verifier, redirectUri, r.now⟩)) := by
  unfold resumeGrant
  simp only []
  split
  next => exact Or.inl ⟨_, rfl⟩
  next x hx =>
    obtain ⟨hrow, hnow⟩ := Option.filter_eq_some_iff.1 hx
    split
    next => exact Or.inl ⟨_, rfl⟩
    next huri =>
      split
      next => exact Or.inl ⟨_, rfl⟩
      next hpkce =>
        rw [not_or] at hpkce
        refine Or.inr ⟨x, hrow, ?_, rfl⟩
        simp [redeemable, of_decide_eq_true hnow, not_not.1 huri, hpkce.1, not_not.1 hpkce.2]

/-- The state is deleted; the exchange begins if the checks pass. -/
theorem stateRead_cases (row : Option OAuthProviderState) (query : CallbackQuery) (r : GrantReply) (s : GrantState) :
    (∃ a, resumeGrant unit (.stateRead row query) r s =
      (({ s with states := s.states.delete (·.state = query.state) } : GrantState).answer a, none)) ∨
    ∃ x, row = some x ∧ exchangeable x query r.now = true ∧ resumeGrant unit (.stateRead row query) r s =
      ({ s with states := s.states.delete (·.state = query.state), exchanges := s.exchanges ++ [x] },
        some (.exchanging x)) := by
  unfold resumeGrant
  simp only []
  split
  next => exact Or.inl ⟨_, rfl⟩
  next x hx =>
    obtain ⟨hrow, hnow⟩ := Option.filter_eq_some_iff.1 hx
    split
    next => exact Or.inl ⟨_, rfl⟩
    next hprovider =>
      rw [not_or] at hprovider
      split
      next => exact Or.inl ⟨_, rfl⟩
      next htenant =>
        refine Or.inr ⟨x, hrow, ?_, rfl⟩
        simp [exchangeable, of_decide_eq_true hnow, hprovider.1, not_not.1 hprovider.2, not_not.1 htenant]

/-- The access token of one grant is replaced, or another row has it. -/
theorem rotate_cases (db : OAuthDb) (refreshToken access : Text) (expiresAt : Int)
    (hthere : ∃ t ∈ db.tokens.rows, t.refreshToken = refreshToken) :
    db.rotate? refreshToken access expiresAt = none ∨
      ∃ (tokens : Table OAuthServerToken) (t : OAuthServerToken), db.rotate? refreshToken access expiresAt = some { db with tokens := tokens } ∧
        tokens.rows = db.tokens.rows.filter (fun x => !decide (x.refreshToken = refreshToken)) ++
          [{ t with accessToken := access, expiresAt := expiresAt }] ∧ t.refreshToken = refreshToken := by
  unfold OAuthDb.rotate? OAuthDb.getByRefreshToken
  cases hfind : db.tokens.rows.find? (·.refreshToken = refreshToken) with
  | none =>
    obtain ⟨t, ht, heq⟩ := hthere
    have hnot := List.find?_eq_none.1 hfind t ht
    simp [heq] at hnot
  | some t =>
    simp only []
    cases hinsert : (db.tokens.delete (·.refreshToken = refreshToken)).insert?
        { t with accessToken := access, expiresAt := expiresAt } with
    | none => exact Or.inl rfl
    | some tokens =>
      refine Or.inr ⟨tokens, t, rfl, (Table.insert?_eq_some.1 hinsert).2, ?_⟩
      have htrue := List.find?_some hfind
      simpa using htrue

/-! ## Every run -/

theorem Honoured.mono {s s' : GrantState} (hmade : ∀ x ∈ s.codesMade, x ∈ s'.codesMade) {r : Redemption}
    (h : Honoured unit s r) : Honoured unit s' r :=
  ⟨hmade _ h.1, h.2⟩

theorem FrameOk.mono {s s' : GrantState} (hmade : ∀ x ∈ s.codesMade, x ∈ s'.codesMade)
    (htokens : ∀ t ∈ s.oauth.tokens.rows, ∃ t' ∈ s'.oauth.tokens.rows, t'.refreshToken = t.refreshToken) {f : GrantFrame}
    (h : FrameOk unit s f) : FrameOk unit s' f := by
  cases f with
  | codeRead row code verifier uri =>
    cases row with
    | none => trivial
    | some row => exact ⟨hmade _ h.1, h.2⟩
  | redeemed r => exact Honoured.mono hmade h
  | named r name => exact Honoured.mono hmade h
  | refreshRead refresh scope =>
    obtain ⟨t, ht, rfl⟩ := h
    exact htokens t ht
  | stateRead row query => cases row <;> exact h
  | exchanging entry => trivial

theorem lastAccess_append (returned : List (Text × Text)) (refresh access refresh' : Text) :
    lastAccess (returned ++ [(refresh, access)]) refresh' = if refresh = refresh' then some access else lastAccess returned refresh' := by
  unfold lastAccess
  rw [List.filter_append]
  by_cases h : refresh = refresh'
  · simp [h]
  · simp [h]

/-- A request waits with a further frame. -/
theorem Recorded.push {s : GrantState} {pending : Multiset GrantFrame} {f : GrantFrame} (h : Recorded unit ⟨s, pending⟩)
    (hf : FrameOk unit s f) : Recorded unit ⟨s, f ::ₘ pending⟩ where
  codes := h.codes
  granted := h.granted
  pending g hg := by
    rcases Multiset.mem_cons.1 hg with rfl | hg
    · exact hf
    · exact h.pending g hg
  last := h.last

theorem recorded_call {c : GrantCall} (h : Recorded unit w) :
    Recorded unit (Interleaving.after w.pending (beginGrant c w.state)) := by
  obtain ⟨s, pending⟩ := w
  have hanswer : ∀ a, Recorded unit (Interleaving.after pending (s.answer a, none)) := fun _ => by
    rw [Interleaving.after_none]
    exact ⟨h.codes, h.granted, h.pending, h.last⟩
  unfold beginGrant
  cases c with
  | token form =>
    rcases form with _ | (⟨code, verifier, uri⟩ | refresh | _)
    · exact hanswer _
    · rw [Interleaving.after_some]
      refine h.push ?_
      cases hfind : s.oauth.codes.rows.find? (·.code = code) with
      | none => trivial
      | some row =>
        have hcode := List.find?_some hfind
        exact ⟨h.codes row (List.mem_of_find?_eq_some hfind), by simpa using hcode⟩
    · simp only []
      split
      next => exact hanswer _
      next existing hfind =>
        rw [Interleaving.after_some]
        have hrefresh := List.find?_some hfind
        exact h.push ⟨existing, List.mem_of_find?_eq_some hfind, by simpa using hrefresh⟩
    · exact hanswer _
  | callback query =>
    simp only []
    split
    next => exact hanswer _
    next =>
      split
      next => exact hanswer _
      next =>
        rw [Interleaving.after_some]
        refine h.push ?_
        cases hfind : s.states.rows.find? (·.state = query.state) with
        | none => trivial
        | some row =>
          have hstate := List.find?_some hfind
          show row.state = query.state
          simpa using hstate
  | createCode row =>
    simp only []
    split
    next codes hcodes =>
      rw [Interleaving.after_none]
      have hmade : ∀ x ∈ s.codesMade, x ∈ s.codesMade ++ [row] := fun x hx => List.mem_append_left _ hx
      refine ⟨fun x hx => ?_, fun r hr => (h.granted r hr).mono hmade, fun f hf => ?_, h.last⟩
      case refine_2 =>
        have hok : FrameOk unit s f := h.pending f hf
        refine FrameOk.mono ?_ ?_ hok
        · exact hmade
        · exact fun t ht => ⟨t, ht, rfl⟩
      rw [show (GrantState.oauth _).codes = codes from rfl, (Table.insert?_eq_some.1 hcodes).2] at hx
      rcases List.mem_append.1 hx with hx | hx
      · exact hmade x (h.codes x hx)
      · exact List.mem_append_right _ hx
    next => exact hanswer _
  | createProviderState row =>
    simp only []
    split
    next =>
      rw [Interleaving.after_none]
      exact ⟨h.codes, h.granted, h.pending, h.last⟩
    next => exact hanswer _

/-- A request that goes no further. -/
theorem Recorded.pop {s s' : GrantState} {f : GrantFrame} {fs : Multiset GrantFrame} (h : Recorded unit ⟨s, f ::ₘ fs⟩)
    (hmade : s'.codesMade = s.codesMade) (hcodes : ∀ row ∈ s'.oauth.codes.rows, row ∈ s.oauth.codes.rows)
    (hgranted : ∀ r ∈ s'.granted, r ∈ s.granted ∨ Honoured unit s r)
    (htokens : ∀ t ∈ s.oauth.tokens.rows, ∃ t' ∈ s'.oauth.tokens.rows, t'.refreshToken = t.refreshToken)
    (hlast : ∀ refresh access, lastAccess s'.returned refresh = some access →
      ∃ t ∈ s'.oauth.tokens.rows, t.refreshToken = refresh ∧ t.accessToken = access) : Recorded unit ⟨s', fs⟩ where
  codes row hrow := hmade ▸ h.codes row (hcodes row hrow)
  granted r hr := by
    have hsame : ∀ x ∈ s.codesMade, x ∈ s'.codesMade := fun x hx => hmade ▸ hx
    rcases hgranted r hr with hr | hr
    · exact (h.granted r hr).mono hsame
    · exact hr.mono hsame
  pending g hg := (h.pending g (Multiset.mem_cons_of_mem hg)).mono (fun x hx => hmade ▸ hx) htokens
  last := hlast

theorem recorded_resume {f : GrantFrame} {fs : Multiset GrantFrame} {r : GrantReply} (h : Recorded unit w)
    (hpending : w.pending = f ::ₘ fs) : Recorded unit (Interleaving.after fs (resumeGrant unit f r w.state)) := by
  obtain ⟨s, pending⟩ := w
  subst hpending
  have hf : FrameOk unit s f := h.pending f (Multiset.mem_cons_self f fs)
  have hkeep : ∀ t ∈ s.oauth.tokens.rows, ∃ t' ∈ s.oauth.tokens.rows, t'.refreshToken = t.refreshToken :=
    fun t ht => ⟨t, ht, rfl⟩
  have hanswer : ∀ a, Recorded unit (Interleaving.after fs (s.answer a, none)) := fun _ => by
    rw [Interleaving.after_none]
    exact h.pop rfl (fun _ hrow => hrow) (fun _ hr => Or.inl hr) hkeep h.last
  cases f with
  | codeRead row code verifier uri =>
    have hdeleted : ∀ a, Recorded unit ⟨({ s with oauth := { s.oauth with codes := s.oauth.codes.delete (·.code = code) } } :
        GrantState).answer a, fs⟩ := fun a =>
      h.pop rfl (fun _ hrow => (List.mem_filter.1 hrow).1) (fun _ hr => Or.inl hr) hkeep h.last
    rcases @codeRead_cases unit row code verifier uri r s with ⟨a, heq⟩ | ⟨x, rfl, hredeem, heq⟩
    · rw [heq, Interleaving.after_none]
      exact hdeleted a
    · rw [heq, Interleaving.after_some]
      have hbase : Recorded unit ⟨{ s with oauth := { s.oauth with codes := s.oauth.codes.delete (·.code = code) } }, fs⟩ :=
        h.pop rfl (fun _ hrow => (List.mem_filter.1 hrow).1) (fun _ hr => Or.inl hr) hkeep h.last
      simp only [redeemable, Bool.and_eq_true, decide_eq_true_eq, beq_iff_eq, bne_iff_ne] at hredeem
      exact hbase.push ⟨hf.1, hredeem.1.1.2.symm, hredeem.1.2, hredeem.2, hredeem.1.1.1⟩
  | redeemed red =>
    unfold resumeGrant
    rw [Interleaving.after_some]
    exact (h.pop rfl (fun _ hrow => hrow) (fun _ hr => Or.inl hr) hkeep h.last : Recorded unit ⟨s, fs⟩).push hf
  | named red name =>
    unfold resumeGrant
    simp only []
    split
    next tokens htokens =>
      rw [Interleaving.after_none]
      have hrows := (Table.insert?_eq_some.1 htokens).2
      refine h.pop rfl (fun _ hrow => hrow) (fun x hx => ?_) (fun t ht => ⟨t, ?_, rfl⟩) fun refresh access hlast => ?_
      · rcases List.mem_append.1 hx with hx | hx
        · exact Or.inl hx
        · exact Or.inr (List.mem_singleton.1 hx ▸ hf)
      · show t ∈ tokens.rows
        rw [hrows]
        exact List.mem_append_left _ ht
      · show ∃ t ∈ tokens.rows, _
        rw [hrows]
        have hlast : lastAccess (s.returned ++ [(r.refresh, r.access)]) refresh = some access := hlast
        rw [lastAccess_append] at hlast
        split at hlast
        next heq => exact ⟨_, List.mem_append_right _ (List.mem_singleton_self _), heq, Option.some.inj hlast⟩
        next =>
          obtain ⟨t, ht, hpair⟩ := h.last refresh access hlast
          exact ⟨t, List.mem_append_left _ ht, hpair⟩
    next => exact hanswer _
  | refreshRead refresh scope =>
    unfold resumeGrant
    simp only []
    rcases rotate_cases s.oauth refresh r.access (r.now + accessTtlMs) hf with hnone | ⟨tokens, t₀, heq, hrows, hsame⟩
    · rw [hnone]
      exact hanswer _
    · rw [heq]
      simp only []
      rw [Interleaving.after_none]
      refine h.pop rfl (fun _ hrow => hrow) (fun _ hx => Or.inl hx) (fun t ht => ?_) fun refresh' access hlast => ?_
      · show ∃ t' ∈ tokens.rows, _
        rw [hrows]
        by_cases hrefresh : t.refreshToken = refresh
        · exact ⟨_, List.mem_append_right _ (List.mem_singleton_self _), hsame.trans hrefresh.symm⟩
        · exact ⟨t, List.mem_append_left _ (List.mem_filter.2 ⟨ht, by simpa using hrefresh⟩), rfl⟩
      · show ∃ t ∈ tokens.rows, _
        rw [hrows]
        have hlast : lastAccess (s.returned ++ [(refresh, r.access)]) refresh' = some access := hlast
        rw [lastAccess_append] at hlast
        split at hlast
        next heq' =>
          exact ⟨_, List.mem_append_right _ (List.mem_singleton_self _), hsame.trans heq', Option.some.inj hlast⟩
        next hne =>
          obtain ⟨t, ht, hrefresh, haccess⟩ := h.last refresh' access hlast
          refine ⟨t, List.mem_append_left _ (List.mem_filter.2 ⟨ht, ?_⟩), hrefresh, haccess⟩
          simpa using fun heq => hne (heq.symm.trans hrefresh)
  | stateRead row query =>
    have hbase : ∀ s' : GrantState, s'.oauth = s.oauth → s'.codesMade = s.codesMade → s'.granted = s.granted →
        s'.returned = s.returned → Recorded unit ⟨s', fs⟩ := fun s' h1 h2 h3 h4 =>
      h.pop h2 (fun _ hrow => h1 ▸ hrow) (fun _ hr => Or.inl (h3 ▸ hr)) (fun t ht => h1.symm ▸ hkeep t ht)
        fun refresh access hlast => h1.symm ▸ h.last refresh access (h4 ▸ hlast)
    rcases @stateRead_cases unit row query r s with ⟨a, heq⟩ | ⟨x, -, -, heq⟩
    · rw [heq, Interleaving.after_none]
      exact hbase _ rfl rfl rfl rfl
    · rw [heq, Interleaving.after_some]
      refine Recorded.push (hbase _ ?_ ?_ ?_ ?_) ?_
      all_goals first | rfl | trivial
  | exchanging entry =>
    unfold resumeGrant
    simp only []
    split
    next => exact hanswer _
    next => exact hanswer _

/-! ## Once -/

theorem codesOf_append {rows : List OAuthAuthorizationCode} {row : OAuthAuthorizationCode} {k : Text}
    (h : k ∈ codesOf (rows ++ [row])) : k ∈ codesOf rows ∨ k = row.code := by
  obtain ⟨x, hx, rfl⟩ := h
  rcases List.mem_append.1 hx with hx | hx
  · exact Or.inl ⟨x, hx, rfl⟩
  · exact Or.inr (by rw [List.mem_singleton.1 hx])

theorem statesOf_append {rows : List OAuthProviderState} {row : OAuthProviderState} {k : Text}
    (h : k ∈ statesOf (rows ++ [row])) : k ∈ statesOf rows ∨ k = row.state := by
  obtain ⟨x, hx, rfl⟩ := h
  rcases List.mem_append.1 hx with hx | hx
  · exact Or.inl ⟨x, hx, rfl⟩
  · exact Or.inr (by rw [List.mem_singleton.1 hx])

theorem codesOf_delete {codes : Table OAuthAuthorizationCode} {code k : Text}
    (h : k ∈ codesOf (codes.delete (·.code = code)).rows) : k ∈ codesOf codes.rows ∧ k ≠ code := by
  obtain ⟨x, hx, rfl⟩ := h
  obtain ⟨hx, hne⟩ := List.mem_filter.1 hx
  exact ⟨⟨x, hx, rfl⟩, by simpa using hne⟩

theorem statesOf_delete {states : Table OAuthProviderState} {state k : Text}
    (h : k ∈ statesOf (states.delete (·.state = state)).rows) : k ∈ statesOf states.rows ∧ k ≠ state := by
  obtain ⟨x, hx, rfl⟩ := h
  obtain ⟨hx, hne⟩ := List.mem_filter.1 hx
  exact ⟨⟨x, hx, rfl⟩, by simpa using hne⟩

/-- What a further frame spends. -/
theorem spentCodes_cons (s : GrantState) (f : GrantFrame) (fs : Multiset GrantFrame) :
    spentCodes ⟨s, f ::ₘ fs⟩ = (redemptionOf f).elim (spentCodes ⟨s, fs⟩) fun r => r.authCode.code ::ₘ spentCodes ⟨s, fs⟩ := by
  unfold spentCodes
  cases h : redemptionOf f with
  | none => rw [Multiset.filterMap_cons_none f fs h]; rfl
  | some r =>
    rw [Multiset.filterMap_cons_some redemptionOf f fs h, Multiset.add_cons, Multiset.map_cons]
    rfl

/-- A grant is made, and its request is done. -/
theorem spentCodes_granted (s s' : GrantState) (red : Redemption) (fs : Multiset GrantFrame)
    (hgranted : s'.granted = s.granted ++ [red]) : spentCodes ⟨s', fs⟩ = red.authCode.code ::ₘ spentCodes ⟨s, fs⟩ := by
  unfold spentCodes
  rw [hgranted, ← Multiset.coe_add, Multiset.coe_singleton, add_assoc, Multiset.singleton_add, Multiset.add_cons,
    Multiset.map_cons]

/-- An exchange begins. -/
theorem spentStates_exchanged (s s' : GrantState) (x : OAuthProviderState) (fs fs' : Multiset GrantFrame)
    (hexchanges : s'.exchanges = s.exchanges ++ [x]) : spentStates ⟨s', fs'⟩ = x.state ::ₘ spentStates ⟨s, fs⟩ := by
  unfold spentStates
  rw [hexchanges, ← Multiset.coe_add, Multiset.coe_singleton, add_comm, Multiset.singleton_add, Multiset.map_cons]

theorem usedOnce_call {c : GrantCall} (h : UsedOnce w) (hnew : NewGrants w (.call c)) :
    UsedOnce (Interleaving.after w.pending (beginGrant c w.state)) := by
  obtain ⟨s, pending⟩ := w
  have hanswer : ∀ a, UsedOnce (Interleaving.after pending (s.answer a, none)) := fun _ => by
    rw [Interleaving.after_none]
    exact ⟨h.codes, h.states⟩
  -- a request that only has read spends nothing
  have hread : ∀ f, redemptionOf f = none → UsedOnce (Interleaving.after pending (s, some f)) := fun f hf => by
    rw [Interleaving.after_some]
    refine ⟨?_, h.states⟩
    rw [spentCodes_cons, hf]
    exact h.codes
  unfold beginGrant
  cases c with
  | token form =>
    rcases form with _ | (⟨code, verifier, uri⟩ | refresh | _)
    · exact hanswer _
    · exact hread _ rfl
    · simp only []
      split
      next => exact hanswer _
      next => exact hread _ rfl
    · exact hanswer _
  | callback query =>
    simp only []
    split
    next => exact hanswer _
    next =>
      split
      next => exact hanswer _
      next => exact hread _ rfl
  | createCode row =>
    simp only []
    split
    next codes hcodes =>
      rw [Interleaving.after_none]
      have hrows := (Table.insert?_eq_some.1 hcodes).2
      refine ⟨?_, h.states⟩
      refine h.codes.make (k := row.code) ?_ ?_ ?_ ?_
      · rintro ⟨made, hmade, heq⟩
        exact hnew made hmade heq
      · rintro x ⟨made, hmade, rfl⟩
        exact ⟨made, List.mem_append_left _ hmade, rfl⟩
      · exact ⟨row, List.mem_append_right _ (List.mem_singleton_self row), rfl⟩
      · intro x hx
        have hx : x ∈ codesOf codes.rows := hx
        rw [hrows] at hx
        exact codesOf_append hx
    next => exact hanswer _
  | createProviderState row =>
    simp only []
    split
    next states hstates =>
      rw [Interleaving.after_none]
      have hrows := (Table.insert?_eq_some.1 hstates).2
      refine ⟨h.codes, ?_⟩
      refine h.states.make (k := row.state) ?_ ?_ ?_ ?_
      · rintro ⟨made, hmade, heq⟩
        exact hnew made hmade heq
      · rintro x ⟨made, hmade, rfl⟩
        exact ⟨made, List.mem_append_left _ hmade, rfl⟩
      · exact ⟨row, List.mem_append_right _ (List.mem_singleton_self row), rfl⟩
      · intro x hx
        have hx : x ∈ statesOf states.rows := hx
        rw [hrows] at hx
        exact statesOf_append hx
    next => exact hanswer _

theorem usedOnce_resume {f : GrantFrame} {fs : Multiset GrantFrame} {r : GrantReply} (h : UsedOnce w)
    (hrecorded : Recorded unit w) (hthere : StillThere unit w (.resume f r)) (hpending : w.pending = f ::ₘ fs) :
    UsedOnce (Interleaving.after fs (resumeGrant unit f r w.state)) := by
  obtain ⟨s, pending⟩ := w
  subst hpending
  have hf : FrameOk unit s f := hrecorded.pending f (Multiset.mem_cons_self f fs)
  have hcodes := h.codes
  rw [spentCodes_cons] at hcodes
  -- whatever the frame had spent, what is left is spent once
  have hrest : OneTime (codesOf s.codesMade) (codesOf s.oauth.codes.rows) (spentCodes ⟨s, fs⟩) := by
    refine hcodes.mono (fun _ hk => hk) ?_
    cases redemptionOf f with
    | none => exact le_refl _
    | some red => exact Multiset.le_cons_self _ _
  have hanswer : ∀ a, UsedOnce (Interleaving.after fs (s.answer a, none)) := fun _ => by
    rw [Interleaving.after_none]
    exact ⟨hrest, h.states⟩
  cases f with
  | codeRead row code verifier uri =>
    rcases @codeRead_cases unit row code verifier uri r s with ⟨a, heq⟩ | ⟨x, rfl, hredeem, heq⟩
    · rw [heq, Interleaving.after_none]
      exact ⟨hrest.mono (fun k hk => (codesOf_delete hk).1) (le_refl _), h.states⟩
    · rw [heq, Interleaving.after_some]
      refine ⟨?_, h.states⟩
      rw [spentCodes_cons]
      refine hrest.spend (k := x.code) (hthere hredeem) fun k hk => ?_
      rw [hf.2]
      exact codesOf_delete hk
  | redeemed red =>
    unfold resumeGrant
    rw [Interleaving.after_some]
    refine ⟨?_, h.states⟩
    rw [spentCodes_cons]
    exact hcodes
  | named red name =>
    unfold resumeGrant
    simp only []
    split
    next tokens htokens =>
      rw [Interleaving.after_none]
      refine ⟨?_, h.states⟩
      rw [spentCodes_granted s _ red fs rfl]
      exact hcodes
    next => exact hanswer _
  | refreshRead refresh scope =>
    unfold resumeGrant
    simp only []
    rcases rotate_cases s.oauth refresh r.access (r.now + accessTtlMs) hf with hnone | ⟨tokens, t₀, heq, -, -⟩
    · rw [hnone]
      exact hanswer _
    · rw [heq]
      simp only []
      rw [Interleaving.after_none]
      exact ⟨hrest, h.states⟩
  | stateRead row query =>
    rcases @stateRead_cases unit row query r s with ⟨a, heq⟩ | ⟨x, rfl, hexchange, heq⟩
    · rw [heq, Interleaving.after_none]
      exact ⟨hrest, h.states.mono (fun k hk => (statesOf_delete hk).1) (le_refl _)⟩
    · rw [heq, Interleaving.after_some]
      refine ⟨?_, ?_⟩
      · rw [spentCodes_cons]
        exact hrest
      · rw [spentStates_exchanged s _ x (.stateRead (some x) query ::ₘ fs) _ rfl]
        refine h.states.spend (k := x.state) (hthere hexchange) fun k hk => ?_
        have hf : x.state = query.state := hf
        rw [hf]
        exact statesOf_delete hk
  | exchanging entry =>
    unfold resumeGrant
    simp only []
    split
    next => exact hanswer _
    next => exact hanswer _

/-! ## Runs -/

/-- The stores before the first request: any rows, nothing granted yet. -/
structure GrantStart (s : GrantState) : Prop where
  codes : s.codesMade = s.oauth.codes.rows
  states : s.statesMade = s.states.rows
  granted : s.granted = []
  exchanges : s.exchanges = []
  returned : s.returned = []

/-- What the grants of a run are. -/
structure Redeemed (unit : UnitConfig) (s : GrantState) : Prop where
  once : (s.granted.map (·.authCode.code)).Nodup
  exchanged : (s.exchanges.map (·.state)).Nodup
  honoured : ∀ r ∈ s.granted, Honoured unit s r
  /-- Of a refresh token that was returned one access token resolves, the last returned with it, and that until its time. -/
  current : ∀ refresh access, lastAccess s.returned refresh = some access →
    ∃ t ∈ s.oauth.tokens.rows, t.refreshToken = refresh ∧ t.accessToken = access ∧
      ∀ token now, (∃ u, s.oauth.resolveOAuthAccessToken token now = some u ∧ u.refreshToken = refresh) ↔
        token = access ∧ now ≤ t.expiresAt

/-- The row of a token is the one that has it. -/
theorem resolve_eq {db : OAuthDb} {t : OAuthServerToken} (ht : t ∈ db.tokens.rows) (token : Text) (now : Int) :
    (∃ u, db.resolveOAuthAccessToken token now = some u ∧ u.refreshToken = t.refreshToken) ↔
      token = t.accessToken ∧ now ≤ t.expiresAt := by
  have haccess : Table.Identifies fun u : OAuthServerToken => decide (u.accessToken = t.accessToken) := by
    intro a b ha hb
    have heq : a.accessToken = b.accessToken := (of_decide_eq_true ha).trans (of_decide_eq_true hb).symm
    simp [clash, heq]
  have hrefresh : Table.Identifies fun u : OAuthServerToken => decide (u.refreshToken = t.refreshToken) := by
    intro a b ha hb
    have heq : a.refreshToken = b.refreshToken := (of_decide_eq_true ha).trans (of_decide_eq_true hb).symm
    simp [clash, heq]
  have hsame : ∀ u ∈ db.tokens.rows, u.accessToken = t.accessToken ∨ u.refreshToken = t.refreshToken → u = t :=
    fun u hu heq => heq.elim
      (fun heq => Table.eq_of_identifies haccess hu ht (decide_eq_true heq) (decide_eq_true rfl))
      fun heq => Table.eq_of_identifies hrefresh hu ht (decide_eq_true heq) (decide_eq_true rfl)
  constructor
  · rintro ⟨u, hu, hrefresh⟩
    obtain ⟨hfind, hnow⟩ := Option.filter_eq_some_iff.1 hu
    have hut := hsame u (List.mem_of_find?_eq_some hfind) (Or.inr hrefresh)
    have htoken := List.find?_some hfind
    rw [hut] at htoken hnow
    simp only [decide_eq_true_eq] at htoken hnow
    exact ⟨htoken.symm, hnow⟩
  · rintro ⟨rfl, hnow⟩
    refine ⟨t, ?_, rfl⟩
    unfold OAuthDb.resolveOAuthAccessToken
    cases hfind : db.tokens.rows.find? (·.accessToken = t.accessToken) with
    | none =>
      have hnot := List.find?_eq_none.1 hfind t ht
      simp at hnot
    | some u =>
      have htoken := List.find?_some hfind
      rw [hsame u (List.mem_of_find?_eq_some hfind) (Or.inl (by simpa using htoken))]
      exact Option.filter_eq_some_iff.2 ⟨rfl, decide_eq_true hnow⟩

theorem grants_step {m : GrantMove} (hmove : NewGrants w m ∧ StillThere unit w m) (h : Recorded unit w ∧ UsedOnce w) :
    Recorded unit ((grants unit).step m w) ∧ UsedOnce ((grants unit).step m w) := by
  obtain ⟨hrecorded, honce⟩ := h
  rcases Interleaving.step_cases m w with ⟨c, rfl, heq⟩ | ⟨f, r, fs, rfl, hpending, heq⟩ | heq
  · rw [heq]
    exact ⟨recorded_call hrecorded, usedOnce_call honce hmove.1⟩
  · rw [heq]
    exact ⟨recorded_resume hrecorded hpending, usedOnce_resume honce hrecorded hmove.2 hpending⟩
  · rw [heq]
    exact ⟨hrecorded, honce⟩

/-- **Grants are redeemed once** in every run in which what a request consumes still lies there when it deletes it. -/
theorem grants_redeemed_once {s : GrantState} (hstart : GrantStart s) {moves : List GrantMove}
    (hmoves : (grants unit).Along (fun w m => NewGrants w m ∧ StillThere unit w m) moves ⟨s, 0⟩) :
    Redeemed unit ((grants unit).run moves ⟨s, 0⟩).state := by
  have hrecorded : Recorded unit ⟨s, 0⟩ := by
    refine ⟨fun row hrow => hstart.codes.symm ▸ hrow, fun r hr => ?_, fun f hf => absurd hf (Multiset.notMem_zero f),
      fun refresh access hlast => ?_⟩
    · rw [show GrantState.granted _ = _ from hstart.granted] at hr
      cases hr
    · rw [show GrantState.returned _ = _ from hstart.returned] at hlast
      cases hlast
  have honce : UsedOnce ⟨s, 0⟩ := by
    have hcodes : spentCodes ⟨s, 0⟩ = 0 := by
      unfold spentCodes
      rw [show GrantState.granted _ = _ from hstart.granted]
      rfl
    have hstates : spentStates ⟨s, 0⟩ = 0 := by
      unfold spentStates
      rw [show GrantState.exchanges _ = _ from hstart.exchanges]
      rfl
    refine ⟨?_, ?_⟩
    · rw [hcodes, show GrantState.codesMade _ = _ from hstart.codes]
      exact OneTime.start _
    · rw [hstates, show GrantState.statesMade _ = _ from hstart.states]
      exact OneTime.start _
  obtain ⟨hrecorded, honce⟩ := Interleaving.run_invariant (Q := fun w => Recorded unit w ∧ UsedOnce w)
    (fun _ _ hmove h => grants_step hmove h) hmoves ⟨hrecorded, honce⟩
  generalize (grants unit).run moves ⟨s, 0⟩ = w at hrecorded honce
  refine ⟨?_, ?_, hrecorded.granted, fun refresh access hlast => ?_⟩
  · have hspent := honce.codes.once
    unfold spentCodes at hspent
    rw [Multiset.map_add, Multiset.nodup_add] at hspent
    exact Multiset.coe_nodup.1 hspent.1
  · exact Multiset.coe_nodup.1 honce.states.once
  · obtain ⟨t, ht, rfl, rfl⟩ := hrecorded.last refresh access hlast
    exact ⟨t, ht, rfl, rfl, resolve_eq ht⟩

/-! ## Two processes -/

def plainUnit : UnitConfig := ⟨id, id, id, fun _ => true⟩

def oneCode : OAuthAuthorizationCode where
  code := "code".toList
  clientId := "client".toList
  redirectUri := "https://agent.example/cb".toList
  codeChallenge := "verifier".toList
  resource := "https://zenod.example/mcp".toList
  scope := "mcp".toList
  tenant := { id := "acme".toList }
  expiresAt := 10

def oneState : OAuthProviderState where
  state := "state".toList
  providerId := "drive".toList
  tenantId := "acme".toList
  redirectUri := "https://zenod.example/cb".toList
  expiresAt := 10

/-- A store with one code and one provider state. -/
def oneEach : GrantState where
  oauth := { codes := ⟨[oneCode], List.pairwise_singleton _ _⟩ }
  states := ⟨[oneState], List.pairwise_singleton _ _⟩
  codesMade := [oneCode]
  statesMade := [oneState]

def oneRequest : GrantCall := .token (some (.authorizationCode oneCode.code "verifier".toList oneCode.redirectUri))

def oneRedemption : Redemption := ⟨oneCode, "verifier".toList, oneCode.redirectUri, 1⟩

def codeReadMove : GrantMove :=
  .resume (.codeRead (some oneCode) oneCode.code "verifier".toList oneCode.redirectUri) { now := 1 }

def insertMove (access refresh : String) : GrantMove :=
  .resume (.named oneRedemption "MCP client".toList) { now := 1, access := access.toList, refresh := refresh.toList }

/-- A request for tokens, and nothing else. -/
def singleMoves : List GrantMove :=
  [.call oneRequest, codeReadMove, .resume (.redeemed oneRedemption) { now := 1 }, insertMove "a" "r"]

/-- Two requests for tokens read the code before either deletes it. -/
def doubleMoves : List GrantMove :=
  [.call oneRequest, .call oneRequest, codeReadMove, codeReadMove, .resume (.redeemed oneRedemption) { now := 1 },
    .resume (.redeemed oneRedemption) { now := 1 }, insertMove "a" "r", insertMove "b" "s"]

def oneQuery : CallbackQuery where
  providerId := "drive".toList
  error := []
  code := "code".toList
  state := "state".toList
  tenantId := "acme".toList

/-- Two callbacks read the state before either deletes it. -/
def doubleCallbacks : List GrantMove :=
  [.call (.callback oneQuery), .call (.callback oneQuery), .resume (.stateRead (some oneState) oneQuery) { now := 1 },
    .resume (.stateRead (some oneState) oneQuery) { now := 1 }]

/-- **A single request redeems its code.** -/
theorem single_redeemed : Redeemed plainUnit ((grants plainUnit).run singleMoves ⟨oneEach, 0⟩).state :=
  grants_redeemed_once ⟨rfl, rfl, rfl, rfl, rfl⟩
    ⟨⟨trivial, trivial⟩, ⟨trivial, fun _ => ⟨oneCode, by decide +kernel, rfl⟩⟩, ⟨trivial, trivial⟩, ⟨trivial, trivial⟩, trivial⟩

/-- **Two requests redeem one code, and two callbacks exchange one state.** -/
theorem code_redeemed_twice :
    (∃ moves, (grants plainUnit).Along NewGrants moves ⟨oneEach, 0⟩ ∧
      ¬(((grants plainUnit).run moves ⟨oneEach, 0⟩).state.granted.map (·.authCode.code)).Nodup) ∧
    ∃ moves, (grants plainUnit).Along NewGrants moves ⟨oneEach, 0⟩ ∧
      ¬(((grants plainUnit).run moves ⟨oneEach, 0⟩).state.exchanges.map (·.state)).Nodup := by
  refine ⟨⟨doubleMoves, ⟨trivial, trivial, trivial, trivial, trivial, trivial, trivial, trivial, trivial⟩, ?_⟩,
    doubleCallbacks, ⟨trivial, trivial, trivial, trivial, trivial⟩, ?_⟩
  all_goals decide +kernel

end Zenod.Access
