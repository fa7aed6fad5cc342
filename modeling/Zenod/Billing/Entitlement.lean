/-
Billing of the hosted product: checkout completion and subscription events
(`server/customerBilling.ts`), their handlers (`/webhook`, `/checkout/complete`
and `reconcileBillingEntitlement` of `server/customerLayer.ts`), the binding of
a tenant (`server/customerTenantBinding.ts`) and the rows of
`server/customerAccounts.ts`.

A handler runs from one await to the next; between its steps Stripe and other
handlers go on. What Stripe has announced and not delivered yet is `due`.
-/
import Zenod.Lib.Text

namespace Zenod.Billing

/-! ## Accounts -/

/-- `Stripe.Subscription.Status`. -/
inductive StripeStatus
  | active | trialing | pastDue | incomplete | paused | canceled | unpaid | incompleteExpired
deriving DecidableEq

inductive SubscriptionStatus
  | checkoutPending | active | pastDue | paused | canceled
deriving DecidableEq

def accountStatusForStripe : StripeStatus → SubscriptionStatus
  | .active | .trialing => .active
  | .pastDue | .incomplete => .pastDue
  | .paused => .paused
  | .canceled | .unpaid | .incompleteExpired => .canceled

def isEntitledStatus (status : SubscriptionStatus) : Bool := status == .active || status == .pastDue

/-- A row, one for each checkout session. -/
structure CustomerAccount where
  sessionId : Text
  accountId : Text
  claimedAt : Nat
  stripeSubscriptionId : Option Text := none
  subscriptionStatus : SubscriptionStatus := .checkoutPending
  tenantId : Option Text := none
  checkoutCompleted : Bool := false
  /-- History: which state of its subscription the status was made from. -/
  seen : Option Nat := none
deriving DecidableEq

abbrev Accounts := List CustomerAccount

/-- `sort((a, b) => b.claimed_at.localeCompare(a.claimed_at))[0] ?? null`. -/
def newest : Accounts → Option CustomerAccount
  | [] => none
  | a :: accounts =>
    match newest accounts with
    | none => some a
    | some b => if a.claimedAt < b.claimedAt then some b else some a

namespace Accounts

variable (accounts : Accounts)

def get (sessionId : Text) : Option CustomerAccount := accounts.find? (·.sessionId = sessionId)

def resolveForSubscription (subscriptionId : Text) : Option CustomerAccount :=
  newest (accounts.filter (·.stripeSubscriptionId = some subscriptionId))

def resolveForAccountId (accountId : Text) : Option CustomerAccount := newest (accounts.filter (·.accountId = accountId))

/-- `upsert` of a row that is there. -/
def upsert (sessionId : Text) (patch : CustomerAccount → CustomerAccount) : Accounts :=
  accounts.map fun a => if a.sessionId = sessionId then patch a else a

end Accounts

/-! ## Stripe -/

/-- A completed checkout session, with its `client_reference_id` and its subscription. -/
structure Purchase where
  session : Text
  accountId : Text
  subscription : Text
deriving DecidableEq

/-- What is delivered: the completion of a checkout, or any event about a subscription or one of its invoices. -/
inductive Event
  | checkout (session : Text)
  | subscription (id : Text)
deriving DecidableEq

inductive TenantStatus | active | suspended
deriving DecidableEq

/-- Where a handler awaits. -/
inductive Handler
  /-- `onCheckoutCompleted`, of a checkout that is not marked as completed yet. -/
  | binding (purchase : Purchase)
  /-- `subscriptions.retrieve`, before Stripe has looked. -/
  | retrieving (subscription : Text)
  /-- The same, with what Stripe answers and which of the subscription's states that is. -/
  | answered (subscription : Text) (version : Nat) (status : StripeStatus)
  /-- The notice, with the account as it was written. -/
  | reconciling (account : CustomerAccount)
deriving DecidableEq

/-- What is stored, here and at Stripe. -/
structure Records where
  accounts : Accounts := []
  tenants : Text → Option TenantStatus := fun _ => none
  purchases : List Purchase := []
  /-- The states that a subscription has gone through. -/
  states : Text → List StripeStatus := fun _ => []
  /-- Events that are still to be delivered at least once. -/
  due : List Event := []

namespace Records

variable (r : Records)

def purchaseOf (subscription : Text) : Option Purchase := r.purchases.find? (·.subscription = subscription)

/-! ## Handlers -/

/-- `completeCustomerCheckout` up to the binding (`reserveBinding` and `provisionTenant`), or to the retrieval. -/
def startCheckout (purchase : Purchase) : Records × Handler :=
  match r.accounts.get purchase.session with
  | none => (r, .retrieving purchase.subscription)
  | some account =>
    if account.accountId ≠ purchase.accountId ∨ account.checkoutCompleted = true then (r, .retrieving purchase.subscription)
    else
      ({ r with
          accounts := r.accounts.upsert purchase.session fun a => { a with tenantId := some a.accountId }
          tenants := Function.update r.tenants account.accountId (some .active) },
        .binding purchase)

/-- The row that `applyCustomerSubscriptionEvent` writes. -/
def rowFor (subscription : Text) : Option CustomerAccount :=
  (r.accounts.resolveForSubscription subscription).or
    ((r.purchaseOf subscription).bind fun purchase => r.accounts.resolveForAccountId purchase.accountId)

/-- `reconcileEntitlement`; a tenant that is not there is left alone. -/
def reconcileEntitlement (account : CustomerAccount) : Records :=
  match account.tenantId with
  | none => r
  | some tenantId =>
    if account.subscriptionStatus = .checkoutPending ∨ r.tenants tenantId = none then r
    else
      let status := if isEntitledStatus account.subscriptionStatus then TenantStatus.active else .suspended
      { r with tenants := Function.update r.tenants tenantId (some status) }

end Records

/-- What completes a checkout's row. -/
def markCompleted (purchase : Purchase) (a : CustomerAccount) : CustomerAccount :=
  { a with stripeSubscriptionId := some purchase.subscription, subscriptionStatus := .active, checkoutCompleted := true, seen := none }

/-- What `applyCustomerSubscriptionEvent` writes. -/
def applied (subscription : Text) (version : Nat) (status : StripeStatus) (a : CustomerAccount) : CustomerAccount :=
  { a with subscriptionStatus := accountStatusForStripe status, stripeSubscriptionId := some subscription, seen := some version }

/-- The next step of a handler, and where it then awaits, if it goes on. -/
def Records.step (r : Records) : Handler → Records × Option Handler
  | .binding purchase =>
    ({ r with accounts := r.accounts.upsert purchase.session (markCompleted purchase) },
      some (.retrieving purchase.subscription))
  | .retrieving subscription =>
    match (r.states subscription).getLast? with
    | none => (r, none)
    | some status => (r, some (.answered subscription ((r.states subscription).length - 1) status))
  | .answered subscription version status =>
    match r.rowFor subscription with
    | none => (r, none)
    | some account =>
      ({ r with accounts := r.accounts.upsert account.sessionId (applied subscription version status) },
        some (.reconciling (applied subscription version status account)))
  | .reconciling account => (r.reconcileEntitlement account, none)

/-! ## Runs -/

structure World where
  records : Records := {}
  handlers : List Handler := []

inductive Op
  /-- `createCustomerCheckout` has a new session. -/
  | begin (session accountId : Text) (claimedAt : Nat)
  /-- The customer completes a session at Stripe. -/
  | buy (session subscription : Text) (status : StripeStatus)
  /-- A subscription changes at Stripe. -/
  | change (subscription : Text) (status : StripeStatus)
  /-- An event is delivered, or the customer visits `/checkout/complete`. -/
  | deliver (event : Event)
  /-- A handler takes its next step. -/
  | go (i : Nat)

namespace Records

variable (r : Records)

def begin (session accountId : Text) (claimedAt : Nat) : Records :=
  if r.accounts.any (·.sessionId = session) then r
  else { r with accounts := r.accounts ++ [{ sessionId := session, accountId := accountId, claimedAt := claimedAt }] }

def buy (session subscription : Text) (status : StripeStatus) : Records :=
  match r.accounts.get session with
  | none => r
  | some account =>
    if r.purchases.any (fun p => p.session = session ∨ p.subscription = subscription) then r
    else
      { r with
        purchases := r.purchases ++ [{ session := session, accountId := account.accountId, subscription := subscription }]
        states := Function.update r.states subscription [status]
        due := r.due ++ [.checkout session] }

def change (subscription : Text) (status : StripeStatus) : Records :=
  match r.purchaseOf subscription with
  | none => r
  | some _ =>
    { r with
      states := Function.update r.states subscription (r.states subscription ++ [status])
      due := r.due ++ [.subscription subscription] }

/-- The event need not be delivered again. -/
def delivered (event : Event) : Records := { r with due := r.due.filter (· ≠ event) }

/-- An event is delivered: what its handler does up to its first await. -/
def deliver (event : Event) : Records × Option Handler :=
  match event with
  | .checkout session =>
    match r.purchases.find? (·.session = session) with
    | none => (r, none)
    | some purchase =>
      let (r, handler) := (r.delivered event).startCheckout purchase
      (r, some handler)
  | .subscription id =>
    match r.purchaseOf id with
    | none => (r, none)
    | some _ => (r.delivered event, some (.retrieving id))

end Records

def exec (s : World) : Op → World
  | .begin session accountId claimedAt => { s with records := s.records.begin session accountId claimedAt }
  | .buy session subscription status => { s with records := s.records.buy session subscription status }
  | .change subscription status => { s with records := s.records.change subscription status }
  | .deliver event =>
    let (records, handler) := s.records.deliver event
    { records := records, handlers := s.handlers ++ handler.toList }
  | .go i =>
    match s.handlers[i]? with
    | none => s
    | some handler =>
      let (records, next) := s.records.step handler
      { records := records, handlers := s.handlers.eraseIdx i ++ next.toList }

def run (ops : List Op) : World := ops.foldl exec {}

/-- All handlers have settled, and nothing is still to be delivered. -/
def World.Settled (s : World) : Prop := s.handlers = [] ∧ s.records.due = []

instance (s : World) : Decidable s.Settled := inferInstanceAs (Decidable (_ ∧ _))

end Zenod.Billing
