/-
The deliveries of a tenant's subscribers (`subscribers.ts`): each try checks
the subscriber's URL and the addresses of its host, and then leaves it to the
HTTP client to look the host up again and connect.

`deliveries_public`: no request reaches an internal address in a run in which
the client connects to no internal address, or to one that was checked in a
spelling the check knows.
-/
import Zenod.Subscribers.Address

namespace Zenod.Subscribers

open Text Ip

/-! ## The code -/

/-- The fields of a `URL`. -/
structure Url where
  protocol : Text
  origin : Text
  username : Text
  password : Text
  hash : Text
  hostname : Text

/-- `new URL` and `isIP` of the platform. -/
structure Platform where
  parseUrl : Text → Option Url
  isIP : Text → Bool

structure SubscriberUrlPolicy where
  privateOrigins : List Text
  privateTenants : List Text

/-- The origin is one the operator lists, for a tenant the operator lists. -/
def SubscriberUrlPolicy.listed (policy : SubscriberUrlPolicy) (url : Url) (tenantId : Text) : Bool :=
  policy.privateOrigins.contains url.origin && policy.privateTenants.contains tenantId

/-- The hostname in lower case, without the brackets of an IPv6 address and the last point of a name. -/
def bareHostname (hostname : Text) : Text :=
  let lower := hostname.map Char.toLower
  let opened := if lower.head? = some '[' then lower.drop 1 else lower
  let closed := if opened.getLast? = some ']' then opened.dropLast else opened
  if closed.getLast? = some '.' then closed.dropLast else closed

variable (P : Platform)

/-- The addresses that are checked: of a literal host itself, of a name what the lookup answers. -/
def addresses (url : Url) (lookup : Option (List Text)) : Option (List Text) :=
  if P.isIP (bareHostname url.hostname) then some [bareHostname url.hostname] else lookup

def validateSubscriberUrl (raw : Option Text) (tenantId : Text) (policy : SubscriberUrlPolicy)
    (lookup : Option (List Text)) : Except String Url :=
  match raw with
  | none => .error "URL must be an HTTPS address."
  | some raw =>
    if 2048 < utf16Length raw then .error "URL must be an HTTPS address."
    else
      match P.parseUrl (trim raw) with
      | none => .error "URL must be an HTTPS address."
      | some url =>
        if url.username ≠ [] ∨ url.password ≠ [] then .error "URL must not contain credentials."
        else if url.hash ≠ [] then .error "URL must not contain a fragment."
        else if policy.listed url tenantId then .ok url
        else if url.protocol ≠ "https:".toList then .error "URL must use HTTPS."
        else if bareHostname url.hostname = "localhost".toList ∨
            ".localhost".toList.isSuffixOf (bareHostname url.hostname) then .error "URL must be a public address."
        else
          match addresses P url lookup with
          | none => .error "URL hostname did not resolve."
          | some [] => .error "URL hostname did not resolve."
          | some addresses =>
            if addresses.any isPrivateAddress then .error "URL resolves to a private, loopback or link-local address."
            else .ok url

/-- What comes back of a request. -/
inductive Answer
  | status (code : Nat)
  | timeout
  | failed

/-- What a try meets: the subscription's secret, the lookup of the check, the address the HTTP client connects to (its own
lookup, or the literal host), and the answer. -/
structure Try where
  secret : Option Text
  cancelled : Bool := false
  lookup : Option (List Text)
  connection : Option Address
  answer : Answer

structure Request where
  url : Url
  address : Address

inductive DeliveryStatus | delivering | retrying | delivered | failed
deriving DecidableEq

structure DeliveryRecord where
  ok : Bool := false
  status : DeliveryStatus := .delivering
  httpStatus : Option Nat := none
  attempts : Nat := 0
  error : Option String := none

/-- `fetch`: the request that is sent, and what comes of it. -/
def fetch (raw : Text) (t : Try) : Option Request × Answer :=
  match P.parseUrl raw, t.connection with
  | some url, some address => (some { url := url, address := address }, t.answer)
  | _, _ => (none, .failed)

/-- The record behind an answer, and whether another try may help. -/
def answered (record : DeliveryRecord) : Answer → DeliveryRecord × Bool
  | .status code =>
    let ok := decide (200 ≤ code ∧ code < 300)
    ({ record with httpStatus := some code, ok := ok, error := if ok then none else some ("HTTP " ++ toString code) },
      !ok && (decide (500 ≤ code) || code == 429 || decide (300 ≤ code ∧ code < 400)))
  | .timeout => ({ record with ok := false, httpStatus := none, error := some "timeout" }, true)
  | .failed => ({ record with ok := false, httpStatus := none, error := some "network error" }, true)

/-- The check and the request of a try. -/
def attemptOnce (raw tenantId : Text) (policy : SubscriberUrlPolicy) (record : DeliveryRecord) (t : Try) :
    Option Request × DeliveryRecord × Bool :=
  match validateSubscriberUrl P (some raw) tenantId policy t.lookup with
  | .error message => (none, { record with ok := false, httpStatus := none, error := some message }, false)
  | .ok _ => ((fetch P raw t).1, answered record (fetch P raw t).2)

/-- The tries of `deliver` from one on, with the requests that are sent. -/
def deliverFrom (raw tenantId : Text) (policy : SubscriberUrlPolicy) (retries : Nat) :
    Nat → DeliveryRecord → List Try → List Request × DeliveryRecord
  | _, record, [] => ([], record)
  | attempt, record, t :: tries =>
    if t.secret.getD [] = [] ∨ t.cancelled then
      ([], { record with status := .failed, error := some "subscription removed" })
    else
      let (request, record, retryable) := attemptOnce P raw tenantId policy { record with attempts := attempt } t
      let more := retryable && decide (attempt ≤ retries)
      let record := { record with status := if record.ok then .delivered else if more then .retrying else .failed }
      if more then
        let (requests, record) := deliverFrom raw tenantId policy retries (attempt + 1) record tries
        (request.toList ++ requests, record)
      else (request.toList, record)

/-- `deliver`, of a subscription's URL, with as many further tries as there are delays. -/
def deliver (raw tenantId : Text) (policy : SubscriberUrlPolicy) (retries : Nat) (tries : List Try) :
    List Request × DeliveryRecord :=
  deliverFrom P raw tenantId policy retries 1 {} tries

/-! ## Where requests go -/

/-- To an origin the operator lists, for a tenant the operator lists, or over HTTPS to a public address. -/
def Allowed (policy : SubscriberUrlPolicy) (tenantId : Text) (r : Request) : Prop :=
  policy.listed r.url tenantId = true ∨ r.url.protocol = "https:".toList ∧ r.address.isInternal = false

/-- White space around a URL changes neither its scheme nor its origin. -/
def SameTarget : Prop :=
  ∀ raw url trimmed, P.parseUrl raw = some url → P.parseUrl (trim raw) = some trimmed →
    url.protocol = trimmed.protocol ∧ url.origin = trimmed.origin

/-- A spelling of an internal address that the check lets through. -/
def Unknown (s : Spelling) : Prop := Missed s ∨ s.value.isMulticast = true

/-- **A try that the check can judge**: if the client connects to an internal address, that is one of those checked, in a
spelling the check knows. -/
def Settled (raw tenantId : Text) (policy : SubscriberUrlPolicy) (t : Try) : Prop :=
  ∀ url, P.parseUrl (trim raw) = some url → policy.listed url tenantId = false →
    ∀ address, t.connection = some address → address.isInternal = true →
      ∃ (form : Form) (texts : List Text), addresses P url t.lookup = some texts ∧ form.text ∈ texts ∧ form.value = address ∧
        ∀ s, form = .v6 s → ¬Unknown s

variable {P}

theorem isReserved_of_internal_v4 {x : V4} (h : x.isInternal = true) : isPrivateRange x.a x.b = true := by
  obtain ⟨a, b, c, d⟩ := x
  simp only [V4.isInternal, V4.isUnspecified, V4.isLoopback, V4.isPrivate, V4.isLinkLocal, V4.isShared, V4.isMulticast,
    Bool.or_eq_true, Bool.and_eq_true, decide_eq_true_eq, V4.mk.injEq] at h
  simp only [isPrivateRange, Bool.or_eq_true, Bool.and_eq_true, decide_eq_true_eq]
  rcases h with ((((⟨rfl, -⟩ | rfl) | ((rfl | h) | h)) | h) | h) | h
  · simp
  · simp
  · simp
  · simp [h]
  · simp [h]
  · simp [h]
  · simp [h]
  · exact .inr h.1

/-- **An internal address in a spelling the check knows is refused.** -/
theorem isPrivateAddress_of_internal {form : Form} (h : form.value.isInternal = true)
    (hknown : ∀ s, form = .v6 s → ¬Unknown s) : isPrivateAddress form.text = true := by
  cases form with
  | v4 x =>
    show isPrivateAddress x.text = true
    rw [isPrivateAddress_v4]
    exact isReserved_of_internal_v4 h
  | v6 s =>
    have hs := hknown s rfl
    rw [Unknown, not_or] at hs
    have hreserved : isReserved (.v6 s.value) = true := by
      have h : s.value.isInternal = true := h
      simp only [V6.isInternal, Bool.or_eq_true] at h
      simp only [isReserved, Bool.or_eq_true]
      rcases h with ((((h | h) | h) | h) | h) | h
      · tauto
      · tauto
      · tauto
      · tauto
      · exact absurd h hs.2
      · obtain ⟨d, hd, hinternal⟩ := (Option.any_eq_true _ _).1 h
        exact Or.inr ((Option.any_eq_true _ _).2 ⟨d, hd, isReserved_of_internal_v4 hinternal⟩)
    show isPrivateAddress s.text = true
    rw [isPrivateAddress_text]
    by_contra hnot
    exact hs.1 ((judged_cases s).1.2 ⟨hreserved, Bool.eq_false_iff.2 hnot⟩)

/-- What a URL that passes the check is. -/
theorem validate_cases {raw tenantId : Text} {policy : SubscriberUrlPolicy} {lookup : Option (List Text)} {url : Url}
    (h : validateSubscriberUrl P (some raw) tenantId policy lookup = .ok url) :
    P.parseUrl (trim raw) = some url ∧ (policy.listed url tenantId = true ∨ url.protocol = "https:".toList ∧
      ∃ texts, addresses P url lookup = some texts ∧ ∀ text ∈ texts, isPrivateAddress text = false) := by
  unfold validateSubscriberUrl at h
  simp only [] at h
  split at h
  next => cases h
  next =>
    split at h
    next => cases h
    next url' hurl =>
      split at h
      next => cases h
      next =>
        split at h
        next => cases h
        next =>
          split at h
          next hlisted =>
            cases h
            exact ⟨hurl, Or.inl hlisted⟩
          next =>
            split at h
            next => cases h
            next hhttps =>
              split at h
              next => cases h
              next =>
                split at h
                next => cases h
                next => cases h
                next texts _ htexts =>
                  split at h
                  next => cases h
                  next hany =>
                    cases h
                    refine ⟨hurl, Or.inr ⟨not_not.1 hhttps, texts, htexts, fun text htext => ?_⟩⟩
                    by_contra hprivate
                    exact hany (List.any_eq_true.2 ⟨text, htext, Bool.not_eq_false _ ▸ hprivate⟩)

theorem attemptOnce_allowed (htarget : SameTarget P) {raw tenantId : Text} {policy : SubscriberUrlPolicy}
    {record : DeliveryRecord} {t : Try} (h : Settled P raw tenantId policy t) {r : Request}
    (hr : (attemptOnce P raw tenantId policy record t).1 = some r) : Allowed policy tenantId r := by
  unfold attemptOnce at hr
  split at hr
  next => cases hr
  next url hvalid =>
    obtain ⟨hparse, hcheck⟩ := validate_cases hvalid
    unfold fetch at hr
    split at hr
    next url' address hurl hconnection =>
      cases hr
      obtain ⟨hprotocol, horigin⟩ := htarget raw url' url hurl hparse
      have hlisted : policy.listed url' tenantId = policy.listed url tenantId := by
        unfold SubscriberUrlPolicy.listed
        rw [horigin]
      unfold Allowed
      simp only [hlisted, hprotocol]
      rcases hcheck with hcheck | ⟨hhttps, texts, htexts, hpublic⟩
      · exact Or.inl hcheck
      · cases hunlisted : policy.listed url tenantId with
        | true => exact Or.inl rfl
        | false =>
          refine Or.inr ⟨hhttps, ?_⟩
          by_contra hinternal
          rw [Bool.not_eq_false] at hinternal
          obtain ⟨form, texts', htexts', hmem, rfl, hknown⟩ := h url hparse hunlisted address hconnection hinternal
          rw [htexts] at htexts'
          cases htexts'
          have hprivate := isPrivateAddress_of_internal hinternal hknown
          rw [hpublic _ hmem] at hprivate
          cases hprivate
    next => cases hr

theorem deliverFrom_allowed (htarget : SameTarget P) {raw tenantId : Text} {policy : SubscriberUrlPolicy} {retries : Nat}
    {tries : List Try} (h : ∀ t ∈ tries, Settled P raw tenantId policy t) (attempt : Nat) (record : DeliveryRecord) :
    ∀ r ∈ (deliverFrom P raw tenantId policy retries attempt record tries).1, Allowed policy tenantId r := by
  induction tries generalizing attempt record with
  | nil => exact fun r hr => absurd hr List.not_mem_nil
  | cons t tries ih =>
    have hone : ∀ record r, r ∈ (attemptOnce P raw tenantId policy record t).1.toList → Allowed policy tenantId r :=
      fun record r hr => attemptOnce_allowed htarget (h t List.mem_cons_self) (Option.mem_toList.1 hr)
    intro r hr
    unfold deliverFrom at hr
    split at hr
    next => cases hr
    next =>
      simp only [] at hr
      split at hr
      next =>
        rcases List.mem_append.1 hr with hr | hr
        · exact hone _ r hr
        · exact ih (fun t ht => h t (List.mem_cons_of_mem _ ht)) _ _ r hr
      next => exact hone _ r hr

/-- **Deliveries reach no internal address** in a run of tries that the check can judge; and a text is judged as the
address it denotes but for the spellings named. -/
theorem deliveries_public (htarget : SameTarget P) :
    (∀ (raw tenantId : Text) (policy : SubscriberUrlPolicy) (retries : Nat) (tries : List Try),
      (∀ t ∈ tries, Settled P raw tenantId policy t) →
        ∀ r ∈ (deliver P raw tenantId policy retries tries).1, Allowed policy tenantId r) ∧
    ∀ form : Form, isPrivateAddress form.text = isReserved form.value ↔
      ∀ s, form = .v6 s → ¬Missed s ∧ ¬Overblocked s :=
  ⟨fun _ _ _ _ _ h => deliverFrom_allowed htarget h 1 {}, isPrivateAddress_iff⟩

/-! ## Deliveries that reach an internal address -/

def sampleUrl (hostname : String) : Url where
  protocol := "https:".toList
  origin := "https://".toList ++ hostname.toList
  username := []
  password := []
  hash := []
  hostname := hostname.toList

def namedHost : Text := "https://hooks.example.com/".toList

/-- The host is written `::ffff:127.0.0.1`. -/
def literalHost : Text := "https://[::ffff:127.0.0.1]/".toList

/-- The parser writes the last two groups of an IPv6 host in hexadecimal digits. -/
def samplePlatform : Platform where
  parseUrl raw :=
    if trim raw = namedHost then some (sampleUrl "hooks.example.com")
    else if trim raw = literalHost then some (sampleUrl "[::ffff:7f00:1]")
    else none
  isIP t := t = "::ffff:7f00:1".toList

theorem samplePlatform_target : SameTarget samplePlatform := by
  intro raw url trimmed h htrim
  have hidem : trim (trim raw) = trim raw := Js.trimChars_idem raw
  have heq : samplePlatform.parseUrl (trim raw) = samplePlatform.parseUrl raw := by
    simp only [samplePlatform, hidem]
  rw [heq, h] at htrim
  cases htrim
  exact ⟨rfl, rfl⟩

def publicTry (lookup : String) (connection : Address) : Try where
  secret := some "s".toList
  lookup := some [lookup.toList]
  connection := some connection
  answer := .status 200

def nobody : SubscriberUrlPolicy := ⟨[], []⟩

def publicHost : V4 := ⟨93, 184, 216, 34⟩

theorem sample_allowed :
    (deliver samplePlatform namedHost "acme".toList nobody 2 [publicTry "93.184.216.34" (.v4 publicHost)]).1 ≠ [] ∧
      ∀ r ∈ (deliver samplePlatform namedHost "acme".toList nobody 2 [publicTry "93.184.216.34" (.v4 publicHost)]).1,
        Allowed nobody "acme".toList r := by
  constructor
  · decide +kernel
  · refine (deliveries_public samplePlatform_target).1 namedHost "acme".toList nobody 2 _ fun t ht url _ _ address haddress
      hinternal => ?_
    rw [List.mem_singleton.1 ht] at haddress
    cases haddress
    exact absurd hinternal (by decide)

def hexGroup (digits : List (Fin 16)) (h : digits ≠ [] ∧ digits.length ≤ 4) : Group where
  digits := digits.map fun v => ⟨v, false⟩
  nonempty := by simpa using h.1
  short := by simpa using h.2

/-- `::ffff:7f00:1`. -/
def mappedLoopback : Spelling where
  front := []
  behind := some [hexGroup [15, 15, 15, 15] (by decide), hexGroup [7, 15, 0, 0] (by decide), hexGroup [1] (by decide)]
  fits := by decide

theorem mappedLoopback_public : isPrivateAddress "::ffff:7f00:1".toList = false := by
  have h := isPrivateAddress_text mappedLoopback
  rwa [show mappedLoopback.text = "::ffff:7f00:1".toList by decide, show judged mappedLoopback = false by decide] at h

/-- `0:0:0:0:0:0:0:1`. -/
def paddedLoopback : Spelling where
  front := [hexGroup [0] (by decide), hexGroup [0] (by decide), hexGroup [0] (by decide), hexGroup [0] (by decide),
    hexGroup [0] (by decide), hexGroup [0] (by decide), hexGroup [0] (by decide), hexGroup [1] (by decide)]
  behind := none
  fits := by decide

theorem sent_of_ok {P : Platform} {raw tenantId : Text} {policy : SubscriberUrlPolicy} {t : Try} {url u : Url} {a : Address}
    (hsecret : ¬(t.secret.getD [] = [] ∨ t.cancelled = true))
    (hvalid : validateSubscriberUrl P (some raw) tenantId policy t.lookup = .ok u) (hurl : P.parseUrl raw = some url)
    (hconnection : t.connection = some a) :
    (⟨url, a⟩ : Request) ∈ (deliver P raw tenantId policy 0 [t]).1 := by
  unfold deliver deliverFrom attemptOnce
  rw [if_neg hsecret]
  simp only [hvalid, fetch, hurl, hconnection]
  split
  next => simp
  next => simp

theorem literalHost_parsed : samplePlatform.parseUrl literalHost = some (sampleUrl "[::ffff:7f00:1]") ∧
    samplePlatform.parseUrl (trim literalHost) = some (sampleUrl "[::ffff:7f00:1]") := by
  have hname : trim literalHost ≠ namedHost := by decide +kernel
  have htrim : trim literalHost = literalHost := by decide +kernel
  have hparse : samplePlatform.parseUrl literalHost = some (sampleUrl "[::ffff:7f00:1]") := by
    simp only [samplePlatform, if_neg hname, if_pos htrim]
  rw [htrim]
  exact ⟨hparse, hparse⟩

theorem namedHost_parsed : samplePlatform.parseUrl namedHost = some (sampleUrl "hooks.example.com") ∧
    samplePlatform.parseUrl (trim namedHost) = some (sampleUrl "hooks.example.com") := by
  have htrim : trim namedHost = namedHost := by decide +kernel
  have hparse : samplePlatform.parseUrl namedHost = some (sampleUrl "hooks.example.com") := by
    simp only [samplePlatform, if_pos htrim]
  rw [htrim]
  exact ⟨hparse, hparse⟩

/-- A URL of the platform whose addresses are judged public passes the check. -/
theorem validate_sample {raw : Text} {hostname : String} {lookup : Option (List Text)} {text : Text}
    (hlength : utf16Length raw ≤ 2048) (hparse : samplePlatform.parseUrl (trim raw) = some (sampleUrl hostname))
    (hlocal : ¬(bareHostname hostname.toList = "localhost".toList ∨
      ".localhost".toList.isSuffixOf (bareHostname hostname.toList) = true))
    (haddresses : addresses samplePlatform (sampleUrl hostname) lookup = some [text])
    (hpublic : isPrivateAddress text = false) :
    validateSubscriberUrl samplePlatform (some raw) "acme".toList nobody lookup = .ok (sampleUrl hostname) := by
  unfold validateSubscriberUrl
  simp only []
  rw [if_neg (by omega), hparse]
  simp only []
  have hlisted : nobody.listed (sampleUrl hostname) "acme".toList = false := rfl
  have hlocal : ¬(bareHostname (sampleUrl hostname).hostname = "localhost".toList ∨
      ".localhost".toList.isSuffixOf (bareHostname (sampleUrl hostname).hostname) = true) := hlocal
  have hany : ¬[text].any isPrivateAddress = true := by simp [hpublic]
  rw [if_neg (by simp [sampleUrl]), if_neg (by simp [sampleUrl]), hlisted, if_neg Bool.false_ne_true,
    if_neg (by simp [sampleUrl]), if_neg hlocal, haddresses]
  simp only []
  rw [if_neg hany]

/-- **A literal host that is mapped to IPv4, and a name that is looked up again**, lead to the host itself; and one address
is judged by its spelling. -/
theorem internal_reached :
    (∃ r ∈ (deliver samplePlatform literalHost "acme".toList nobody 0 [publicTry "" (.v6 mappedLoopback.value)]).1,
      ¬Allowed nobody "acme".toList r) ∧
    (∃ r ∈ (deliver samplePlatform namedHost "acme".toList nobody 0 [publicTry "93.184.216.34" (.v4 ⟨127, 0, 0, 1⟩)]).1,
      ¬Allowed nobody "acme".toList r) ∧
    ∃ form other : Form, form.value = other.value ∧ isPrivateAddress form.text ≠ isPrivateAddress other.text := by
  refine ⟨⟨⟨sampleUrl "[::ffff:7f00:1]", .v6 mappedLoopback.value⟩, ?_, ?_⟩,
    ⟨⟨sampleUrl "hooks.example.com", .v4 ⟨127, 0, 0, 1⟩⟩, ?_, ?_⟩, .v6 paddedLoopback,
    .v6 { front := [], behind := some [hexGroup [1] (by decide)], fits := by decide }, ?_, ?_⟩
  · refine sent_of_ok (by decide) (validate_sample (by decide +kernel) literalHost_parsed.2 (by decide +kernel) ?_
      mappedLoopback_public) literalHost_parsed.1 rfl
    decide +kernel
  · rintro (h | ⟨-, h⟩)
    · exact absurd h (by decide)
    · exact absurd h (by decide)
  · refine sent_of_ok (by decide) (validate_sample (by decide +kernel) namedHost_parsed.2 (by decide +kernel) ?_
      (isPrivateAddress_v4 publicHost)) namedHost_parsed.1 rfl
    decide +kernel
  · rintro (h | ⟨-, h⟩)
    · exact absurd h (by decide)
    · exact absurd h (by decide)
  · decide
  · show isPrivateAddress (Spelling.text _) ≠ isPrivateAddress (Spelling.text _)
    rw [isPrivateAddress_text, isPrivateAddress_text]
    decide

end Zenod.Subscribers
