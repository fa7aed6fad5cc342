/-
Rows and tenants after billing events.

`entitlement_converges`: once all handlers have settled, the rows carry the
latest states of their subscriptions and a tenant is active exactly when it
has a row that pays, provided that each handler writes a row that is its own
and no older state, and sets a tenant's status as its rows stand together.
The invariant `Sound` says of each row and each tenant that it is right or
that some handler at work will make it so.
-/
import Mathlib.Data.List.Pairwise
import Mathlib.Data.List.Perm.Basic
import Zenod.Billing.Entitlement
import Zenod.Lib.Course

namespace Zenod.Billing

/-! ## What is promised -/

/-- A row of the tenant pays. -/
def Records.paying (r : Records) (tenantId : Text) : Bool :=
  r.accounts.any fun a => a.tenantId = some tenantId ∧ isEntitledStatus a.subscriptionStatus = true

/-- The subscription was bought through the row's checkout. -/
def Records.Bought (r : Records) (a : CustomerAccount) (subscription : Text) : Prop :=
  ∃ p ∈ r.purchases, p.session = a.sessionId ∧ p.subscription = subscription

structure Converged (r : Records) : Prop where
  status : ∀ a ∈ r.accounts, a.checkoutCompleted = true → ∀ id, a.stripeSubscriptionId = some id →
    ∃ status, (r.states id).getLast? = some status ∧ a.subscriptionStatus = accountStatusForStripe status
  own : ∀ a ∈ r.accounts, ∀ id, a.stripeSubscriptionId = some id → r.Bought a id
  distinct : ∀ a ∈ r.accounts, ∀ b ∈ r.accounts, ∀ id, a.stripeSubscriptionId = some id → b.stripeSubscriptionId = some id →
    a = b
  tenant : ∀ tenantId, r.tenants tenantId = some .active ↔ r.paying tenantId = true

/-- What a handler finds where it writes: a row that is the subscription's own and shows no later state of it, and a
tenant of which some row pays exactly when the handler's does. -/
def Records.Fits (r : Records) : Handler → Prop
  | .answered id version _ =>
    match r.rowFor id with
    | none => True
    | some a => (∃ p ∈ r.purchases, p.session = a.sessionId ∧ p.subscription = id) ∧ a.seen.all (· ≤ version) = true
  | .reconciling a =>
    match a.tenantId with
    | none => True
    | some tenantId => isEntitledStatus a.subscriptionStatus = r.paying tenantId
  | _ => True

/-- Each handler fits where it takes a step. -/
def Meets (s : World) : Op → Prop
  | .go i =>
    match s.handlers[i]? with
    | none => True
    | some handler => s.records.Fits handler
  | _ => True

instance (r : Records) : DecidablePred r.Fits := fun handler => by
  unfold Records.Fits
  split
  · split <;> infer_instance
  · split <;> infer_instance
  · infer_instance

instance (s : World) (op : Op) : Decidable (Meets s op) := by
  unfold Meets
  split
  · split <;> infer_instance
  · infer_instance

/-! ## Rows -/

section

variable {accounts : Accounts} {a b : CustomerAccount} {r r' : Records} {work rest : List Handler} {id : Text}

theorem newest_mem (h : newest accounts = some a) : a ∈ accounts := by
  induction accounts generalizing a with
  | nil => cases h
  | cons b accounts ih =>
    rw [newest] at h
    split at h
    next =>
      cases h
      exact List.mem_cons_self
    next c hc =>
      split at h
      next =>
        cases h
        exact List.mem_cons_of_mem _ (ih hc)
      next =>
        cases h
        exact List.mem_cons_self

theorem newest_isSome (h : a ∈ accounts) : ∃ b, newest accounts = some b := by
  cases accounts with
  | nil => cases h
  | cons c accounts =>
    rw [newest]
    split
    next => exact ⟨_, rfl⟩
    next => split <;> exact ⟨_, rfl⟩

theorem resolveForSubscription_mem (h : accounts.resolveForSubscription id = some a) :
    a ∈ accounts ∧ a.stripeSubscriptionId = some id := by
  obtain ⟨hmem, hcarries⟩ := List.mem_filter.1 (newest_mem h)
  exact ⟨hmem, of_decide_eq_true hcarries⟩

theorem rowFor_mem (h : r.rowFor id = some a) : a ∈ r.accounts := by
  unfold Records.rowFor at h
  rcases Option.or_eq_some_iff.1 h with h | ⟨-, h⟩
  · exact (resolveForSubscription_mem h).1
  · obtain ⟨p, -, h⟩ := Option.bind_eq_some_iff.1 h
    exact (List.mem_filter.1 (newest_mem h)).1

/-- A row that carries the subscription is found before any other. -/
theorem rowFor_of_carries (ha : a ∈ r.accounts) (hid : a.stripeSubscriptionId = some id) :
    ∃ b, r.rowFor id = some b ∧ b ∈ r.accounts ∧ b.stripeSubscriptionId = some id := by
  have hmem : a ∈ r.accounts.filter (·.stripeSubscriptionId = some id) := List.mem_filter.2 ⟨ha, decide_eq_true hid⟩
  obtain ⟨b, hb⟩ := newest_isSome hmem
  have hb : r.accounts.resolveForSubscription id = some b := hb
  refine ⟨b, ?_, resolveForSubscription_mem hb⟩
  unfold Records.rowFor
  rw [hb, Option.some_or]

/-! ## The invariant -/

/-- The row of a completed checkout carries the subscription, and the tenant. -/
def Records.Carries (r : Records) (id tenantId : Text) : Prop :=
  ∃ a ∈ r.accounts, a.checkoutCompleted = true ∧ a.stripeSubscriptionId = some id ∧ a.tenantId = some tenantId

/-- The handler writes the latest state of the subscription. -/
def Records.Writes (r : Records) (id : Text) : Handler → Prop
  | .binding purchase => purchase.subscription = id
  | .retrieving id' => id' = id
  | .answered id' version _ => id' = id ∧ version = (r.states id).length - 1
  | .reconciling _ => False

/-- The handler sets the tenant's status. -/
def Records.Sets (r : Records) (tenantId : Text) : Handler → Prop
  | .binding purchase => purchase.accountId = tenantId
  | .retrieving id | .answered id _ _ => r.Carries id tenantId
  | .reconciling a => a.tenantId = some tenantId

/-- The subscription's latest state is still to be delivered, or being written. -/
def Records.Awaited (r : Records) (work : List Handler) (id : Text) : Prop :=
  (∃ p ∈ r.purchases, p.subscription = id ∧ .checkout p.session ∈ r.due) ∨ .subscription id ∈ r.due ∨
    ∃ handler ∈ work, r.Writes id handler

def Records.Valid (r : Records) : Handler → Prop
  | .binding purchase => purchase ∈ r.purchases ∧
      ∃ a ∈ r.accounts, a.sessionId = purchase.session ∧ a.accountId = purchase.accountId ∧ a.tenantId = some a.accountId
  | .retrieving id => ∃ p ∈ r.purchases, p.subscription = id
  | .answered id version status => (∃ p ∈ r.purchases, p.subscription = id) ∧ (r.states id)[version]? = some status
  | .reconciling a => a.subscriptionStatus ≠ .checkoutPending ∧ ∀ t, a.tenantId = some t → r.tenants t ≠ none

/-- The tenant's status is what its rows say. -/
def Records.Right (r : Records) (tenantId : Text) : Prop := r.tenants tenantId = some .active ↔ r.paying tenantId = true

structure Sound (r : Records) (work : List Handler) : Prop where
  sessions : r.accounts.Pairwise fun a b => a.sessionId ≠ b.sessionId
  purchases : r.purchases.Pairwise fun p q => p.session ≠ q.session ∧ p.subscription ≠ q.subscription
  states : ∀ p ∈ r.purchases, r.states p.subscription ≠ []
  own : ∀ a ∈ r.accounts, ∀ id, a.stripeSubscriptionId = some id → r.Bought a id
  completed : ∀ a ∈ r.accounts, a.checkoutCompleted = true → a.stripeSubscriptionId ≠ none ∧ a.tenantId = some a.accountId
  seen : ∀ a ∈ r.accounts, ∀ v, a.seen = some v → ∃ id status, a.stripeSubscriptionId = some id ∧
    (r.states id)[v]? = some status ∧ a.subscriptionStatus = accountStatusForStripe status
  tenant : ∀ a ∈ r.accounts, ∀ t, a.tenantId = some t → t = a.accountId ∧ r.tenants t ≠ none
  valid : ∀ handler ∈ work, r.Valid handler
  current : ∀ a ∈ r.accounts, a.checkoutCompleted = true → ∀ id, a.stripeSubscriptionId = some id →
    a.seen = some ((r.states id).length - 1) ∨ r.Awaited work id
  right : ∀ t, r.Right t ∨ ∃ handler ∈ work, r.Sets t handler

namespace Sound

variable {p q : Purchase}

theorem eq_of_session (h : Sound r work) (ha : a ∈ r.accounts) (hb : b ∈ r.accounts) (hsame : a.sessionId = b.sessionId) :
    a = b := by
  by_contra hne
  have : Std.Symm fun a b : CustomerAccount => a.sessionId ≠ b.sessionId := ⟨fun _ _ => Ne.symm⟩
  exact h.sessions.forall ha hb hne hsame

theorem eq_of_purchase (h : Sound r work) (hp : p ∈ r.purchases) (hq : q ∈ r.purchases)
    (hsame : p.session = q.session ∨ p.subscription = q.subscription) : p = q := by
  by_contra hne
  have : Std.Symm fun p q : Purchase => p.session ≠ q.session ∧ p.subscription ≠ q.subscription :=
    ⟨fun _ _ hpq => ⟨hpq.1.symm, hpq.2.symm⟩⟩
  have hapart := h.purchases.forall hp hq hne
  exact hsame.elim hapart.1 hapart.2

/-- A subscription is carried by the row of its checkout alone. -/
theorem eq_of_bought (h : Sound r work) (ha : a ∈ r.accounts) (hb : b ∈ r.accounts) (hida : r.Bought a id)
    (hidb : r.Bought b id) : a = b := by
  obtain ⟨p, hp, hpa, hpid⟩ := hida
  obtain ⟨q, hq, hqb, hqid⟩ := hidb
  have hpq := h.eq_of_purchase hp hq (Or.inr (hpid.trans hqid.symm))
  exact h.eq_of_session ha hb (by rw [← hpa, hpq, hqb])

/-- A row carries no subscription but its own. -/
theorem id_of_bought (h : Sound r work) {id' : Text} (hid : r.Bought a id) (hid' : r.Bought a id') : id = id' := by
  obtain ⟨p, hp, hpa, hpid⟩ := hid
  obtain ⟨q, hq, hqa, hqid⟩ := hid'
  rw [← hpid, ← hqid, h.eq_of_purchase hp hq (Or.inl (hpa.trans hqa.symm))]

theorem mem_congr (h : Sound r work) (hmem : ∀ handler, handler ∈ work ↔ handler ∈ rest) : Sound r rest where
  sessions := h.sessions
  purchases := h.purchases
  states := h.states
  own := h.own
  completed := h.completed
  seen := h.seen
  tenant := h.tenant
  valid handler hh := h.valid handler ((hmem handler).2 hh)
  current a ha hdone id hid := (h.current a ha hdone id hid).imp_right (Or.imp_right (Or.imp_right
    fun ⟨handler, hh, hwrites⟩ => ⟨handler, (hmem handler).1 hh, hwrites⟩))
  right t := (h.right t).imp_right fun ⟨handler, hh, hsets⟩ => ⟨handler, (hmem handler).1 hh, hsets⟩

end Sound

/-! ## One row is written -/

theorem mem_upsert_iff {session : Text} {patch : CustomerAccount → CustomerAccount} :
    b ∈ accounts.upsert session patch ↔
      (∃ a ∈ accounts, a.sessionId = session ∧ patch a = b) ∨ (b ∈ accounts ∧ b.sessionId ≠ session) := by
  unfold Accounts.upsert
  rw [List.mem_map]
  constructor
  · rintro ⟨a, ha, rfl⟩
    by_cases hsession : a.sessionId = session
    · exact Or.inl ⟨a, ha, hsession, (if_pos hsession).symm⟩
    · rw [if_neg hsession]
      exact Or.inr ⟨ha, hsession⟩
  · rintro (⟨a, ha, hsession, rfl⟩ | ⟨hb, hsession⟩)
    · exact ⟨a, ha, if_pos hsession⟩
    · exact ⟨b, hb, if_neg hsession⟩

theorem upsert_sessions {session : Text} {patch : CustomerAccount → CustomerAccount}
    (hpatch : ∀ a : CustomerAccount, (patch a).sessionId = a.sessionId)
    (h : accounts.Pairwise fun a b => a.sessionId ≠ b.sessionId) :
    (accounts.upsert session patch).Pairwise fun a b => a.sessionId ≠ b.sessionId := by
  unfold Accounts.upsert
  refine List.pairwise_map.2 (h.imp fun {a b} hab => ?_)
  have hkeep : ∀ c : CustomerAccount, (if c.sessionId = session then patch c else c).sessionId = c.sessionId := by
    intro c
    split
    · exact hpatch c
    · rfl
  rw [hkeep, hkeep]
  exact hab

/-- A tenant that the written row has nothing to do with pays as before. -/
theorem paying_upsert {session t : Text} {patch : CustomerAccount → CustomerAccount}
    (h : ∀ a ∈ r.accounts, a.sessionId = session → a.tenantId ≠ some t ∧ (patch a).tenantId ≠ some t)
    (haccounts : r'.accounts = r.accounts.upsert session patch) : r'.paying t = r.paying t := by
  unfold Records.paying
  rw [haccounts, Bool.eq_iff_iff, List.any_eq_true, List.any_eq_true]
  constructor
  · rintro ⟨b, hb, hpays⟩
    rcases mem_upsert_iff.1 hb with ⟨a, ha, hsession, rfl⟩ | ⟨hb, -⟩
    · exact absurd (of_decide_eq_true hpays).1 (h a ha hsession).2
    · exact ⟨b, hb, hpays⟩
  · rintro ⟨b, hb, hpays⟩
    refine ⟨b, mem_upsert_iff.2 (Or.inr ⟨hb, fun hsession => ?_⟩), hpays⟩
    exact (h b hb hsession).1 (of_decide_eq_true hpays).1

/-! ## The steps of a handler -/

/-- A handler goes on as others, and the rows stay as they are. -/
theorem sound_exchange {handler : Handler} {next : List Handler} (h : Sound r (handler :: rest))
    (hvalid : ∀ x ∈ next, r.Valid x)
    (hwrites : ∀ a ∈ r.accounts, ∀ id, a.stripeSubscriptionId = some id → r.Writes id handler → ∃ x ∈ next, r.Writes id x)
    (hsets : ∀ t, r.Sets t handler → r.Right t ∨ ∃ x ∈ next, r.Sets t x) : Sound r (rest ++ next) := by
  refine ⟨h.sessions, h.purchases, h.states, h.own, h.completed, h.seen, h.tenant, ?_, ?_, ?_⟩
  · intro x hx
    rcases List.mem_append.1 hx with hx | hx
    · exact h.valid x (List.mem_cons_of_mem _ hx)
    · exact hvalid x hx
  · intro a ha hdone id hid
    rcases h.current a ha hdone id hid with hseen | hdue | hdue | ⟨x, hx, hxid⟩
    · exact Or.inl hseen
    · exact Or.inr (Or.inl hdue)
    · exact Or.inr (Or.inr (Or.inl hdue))
    · refine Or.inr (Or.inr (Or.inr ?_))
      rcases List.mem_cons.1 hx with rfl | hx
      · obtain ⟨y, hy, hyid⟩ := hwrites a ha id hid hxid
        exact ⟨y, List.mem_append_right _ hy, hyid⟩
      · exact ⟨x, List.mem_append_left _ hx, hxid⟩
  · intro t
    rcases h.right t with hright | ⟨x, hx, hxt⟩
    · exact Or.inl hright
    · rcases List.mem_cons.1 hx with rfl | hx
      · exact (hsets t hxt).imp_right fun ⟨y, hy, hyt⟩ => ⟨y, List.mem_append_right _ hy, hyt⟩
      · exact Or.inr ⟨x, List.mem_append_left _ hx, hxt⟩

/-- A row is written for its own subscription. -/
def Records.write (r : Records) (a : CustomerAccount) (patch : CustomerAccount → CustomerAccount) : Records :=
  { r with accounts := r.accounts.upsert a.sessionId patch }

/-- What a patch leaves alone, and that it brings the subscription. -/
structure Patches (patch : CustomerAccount → CustomerAccount) (id : Text) : Prop where
  session : ∀ a, (patch a).sessionId = a.sessionId
  account : ∀ a, (patch a).accountId = a.accountId
  tenant : ∀ a, (patch a).tenantId = a.tenantId
  subscription : ∀ a, (patch a).stripeSubscriptionId = some id
  done : ∀ a, a.checkoutCompleted = true → (patch a).checkoutCompleted = true

section

variable {patch : CustomerAccount → CustomerAccount} {handler next x : Handler}

theorem mem_write_iff (h : Sound r work) (ha : a ∈ r.accounts) :
    b ∈ (r.write a patch).accounts ↔ b = patch a ∨ (b ∈ r.accounts ∧ b.sessionId ≠ a.sessionId) := by
  refine mem_upsert_iff.trans (or_congr_left ⟨?_, fun hb => ⟨a, ha, rfl, hb.symm⟩⟩)
  rintro ⟨c, hc, hsame, rfl⟩
  rw [h.eq_of_session hc ha hsame]

theorem carries_write (h : Sound r work) (ha : a ∈ r.accounts) (hpatch : Patches patch id) (hbought : r.Bought a id)
    {id' t : Text} (hcarries : r.Carries id' t) : (r.write a patch).Carries id' t := by
  obtain ⟨b, hb, hdone, hid, ht⟩ := hcarries
  by_cases hsame : b.sessionId = a.sessionId
  · have hba := h.eq_of_session hb ha hsame
    subst hba
    refine ⟨patch b, (mem_write_iff h ha).2 (Or.inl rfl), hpatch.done b hdone, ?_, (hpatch.tenant b).trans ht⟩
    rw [hpatch.subscription, h.id_of_bought hbought (h.own b hb id' hid)]
  · exact ⟨b, (mem_write_iff h ha).2 (Or.inr ⟨hb, hsame⟩), hdone, hid, ht⟩

theorem sets_write (h : Sound r work) (ha : a ∈ r.accounts) (hpatch : Patches patch id) (hbought : r.Bought a id) {t : Text}
    (hsets : r.Sets t x) : (r.write a patch).Sets t x := by
  cases x with
  | binding p => exact hsets
  | retrieving id' => exact carries_write h ha hpatch hbought hsets
  | answered id' version status => exact carries_write h ha hpatch hbought hsets
  | reconciling b => exact hsets

theorem valid_write (h : Sound r work) (ha : a ∈ r.accounts) (hpatch : Patches patch id) (hvalid : r.Valid x) :
    (r.write a patch).Valid x := by
  cases x with
  | binding p =>
    obtain ⟨hp, b, hb, hsession, haccount, htenant⟩ := hvalid
    refine ⟨hp, ?_⟩
    by_cases hsame : b.sessionId = a.sessionId
    · have hba := h.eq_of_session hb ha hsame
      subst hba
      exact ⟨patch b, (mem_write_iff h ha).2 (Or.inl rfl), (hpatch.session b).trans hsession,
        (hpatch.account b).trans haccount, by rw [hpatch.tenant, hpatch.account, htenant]⟩
    · exact ⟨b, (mem_write_iff h ha).2 (Or.inr ⟨hb, hsame⟩), hsession, haccount, htenant⟩
  | retrieving id' => exact hvalid
  | answered id' version status => exact hvalid
  | reconciling b => exact hvalid

/-- A tenant that the written row has nothing to do with pays as before. -/
theorem right_write (h : Sound r work) (ha : a ∈ r.accounts) (hpatch : Patches patch id) {t : Text} (ht : a.tenantId ≠ some t)
    (hright : r.Right t) : (r.write a patch).Right t := by
  have hpaying : (r.write a patch).paying t = r.paying t := by
    refine paying_upsert (fun b hb hsame => ?_) rfl
    rw [h.eq_of_session hb ha hsame, hpatch.tenant]
    exact ⟨ht, ht⟩
  unfold Records.Right at hright ⊢
  rw [hpaying]
  exact hright

/-- **A handler writes its subscription's row** and goes on as another. -/
theorem sound_write (h : Sound r (handler :: rest)) (ha : a ∈ r.accounts) (hpatch : Patches patch id)
    (hbought : r.Bought a id) (hdone : (patch a).checkoutCompleted = true → a.tenantId = some a.accountId)
    (hseen : ∀ v, (patch a).seen = some v → ∃ status, (r.states id)[v]? = some status ∧
      (patch a).subscriptionStatus = accountStatusForStripe status)
    (hcurrent : (patch a).checkoutCompleted = true →
      (patch a).seen = some ((r.states id).length - 1) ∨ r.Awaited (rest ++ [next]) id)
    (hvalid : r.Valid next) (hwrites : ∀ id', r.Writes id' handler → id' = id)
    (hsets : ∀ t, r.Sets t handler → a.tenantId = some t) (hset : ∀ t, a.tenantId = some t → (r.write a patch).Sets t next) :
    Sound (r.write a patch) (rest ++ [next]) := by
  have hnew : next ∈ rest ++ [next] := List.mem_append_right _ (List.mem_singleton_self _)
  refine ⟨upsert_sessions hpatch.session h.sessions, h.purchases, h.states, ?_, ?_, ?_, ?_, ?_, ?_, ?_⟩
  · intro b hb id' hid
    rcases (mem_write_iff h ha).1 hb with rfl | ⟨hb, -⟩
    · rw [hpatch.subscription] at hid
      cases hid
      obtain ⟨p, hp, hsession, hpid⟩ := hbought
      exact ⟨p, hp, hsession.trans (hpatch.session a).symm, hpid⟩
    · exact h.own b hb id' hid
  · intro b hb hbdone
    rcases (mem_write_iff h ha).1 hb with rfl | ⟨hb, -⟩
    · rw [hpatch.subscription, hpatch.tenant, hpatch.account]
      exact ⟨nofun, hdone hbdone⟩
    · exact h.completed b hb hbdone
  · intro b hb v hv
    rcases (mem_write_iff h ha).1 hb with rfl | ⟨hb, -⟩
    · exact ⟨id, (hseen v hv).choose, hpatch.subscription a, (hseen v hv).choose_spec⟩
    · exact h.seen b hb v hv
  · intro b hb t ht
    rcases (mem_write_iff h ha).1 hb with rfl | ⟨hb, -⟩
    · rw [hpatch.tenant] at ht
      rw [hpatch.account]
      exact h.tenant a ha t ht
    · exact h.tenant b hb t ht
  · intro x hx
    rcases List.mem_append.1 hx with hx | hx
    · exact valid_write h ha hpatch (h.valid x (List.mem_cons_of_mem _ hx))
    · rw [List.mem_singleton.1 hx]
      exact valid_write h ha hpatch hvalid
  · intro b hb hbdone id' hid
    rcases (mem_write_iff h ha).1 hb with rfl | ⟨hb, hother⟩
    · rw [hpatch.subscription] at hid
      cases hid
      exact hcurrent hbdone
    · rcases h.current b hb hbdone id' hid with hbseen | hdue | hdue | ⟨x, hx, hxid⟩
      · exact Or.inl hbseen
      · exact Or.inr (Or.inl hdue)
      · exact Or.inr (Or.inr (Or.inl hdue))
      · rcases List.mem_cons.1 hx with rfl | hx
        · -- The handler writes for its own row alone.
          have hsame := hwrites id' hxid
          subst hsame
          exact absurd (congrArg (·.sessionId) (h.eq_of_bought hb ha (h.own b hb id' hid) hbought)) hother
        · exact Or.inr (Or.inr (Or.inr ⟨x, List.mem_append_left _ hx, hxid⟩))
  · intro t
    by_cases ht : a.tenantId = some t
    · exact Or.inr ⟨next, hnew, hset t ht⟩
    · rcases h.right t with hright | ⟨x, hx, hxt⟩
      · exact Or.inl (right_write h ha hpatch ht hright)
      · rcases List.mem_cons.1 hx with rfl | hx
        · exact absurd (hsets t hxt) ht
        · exact Or.inr ⟨x, List.mem_append_left _ hx, sets_write h ha hpatch hbought hxt⟩

end

theorem sound_retrieving (h : Sound r (.retrieving id :: rest)) :
    Sound (r.step (.retrieving id)).1 (rest ++ (r.step (.retrieving id)).2.toList) := by
  obtain ⟨p, hp, hpid⟩ := h.valid _ List.mem_cons_self
  have hstates : r.states id ≠ [] := by
    rw [← hpid]
    exact h.states p hp
  have hlast := List.getLast?_eq_some_getLast hstates
  simp only [Records.step, hlast, Option.toList_some]
  refine sound_exchange h (fun x hx => ?_) (fun _ _ id' _ hwrites => ?_) fun t hsets => ?_
  · rw [List.mem_singleton.1 hx]
    exact ⟨⟨p, hp, hpid⟩, by rw [← List.getLast?_eq_getElem?, hlast]⟩
  · have hsame : id = id' := hwrites
    exact ⟨_, List.mem_singleton_self _, hsame, by rw [hsame]⟩
  · exact Or.inr ⟨_, List.mem_singleton_self _, hsets⟩

theorem patches_markCompleted (purchase : Purchase) : Patches (markCompleted purchase) purchase.subscription :=
  ⟨fun _ => rfl, fun _ => rfl, fun _ => rfl, fun _ => rfl, fun _ _ => rfl⟩

theorem patches_applied (id : Text) (version : Nat) (status : StripeStatus) : Patches (applied id version status) id :=
  ⟨fun _ => rfl, fun _ => rfl, fun _ => rfl, fun _ => rfl, fun _ h => h⟩

theorem sound_binding {purchase : Purchase} (h : Sound r (.binding purchase :: rest)) :
    Sound (r.step (.binding purchase)).1 (rest ++ (r.step (.binding purchase)).2.toList) := by
  obtain ⟨hp, a, ha, hsession, haccount, htenant⟩ := h.valid _ List.mem_cons_self
  have hstep : r.step (.binding purchase) = (r.write a (markCompleted purchase), some (.retrieving purchase.subscription)) := by
    simp only [Records.step, Records.write, hsession]
  rw [hstep]
  have hpatch := patches_markCompleted purchase
  refine sound_write h ha hpatch ⟨purchase, hp, hsession.symm, rfl⟩ (fun _ => htenant) nofun (fun _ => Or.inr ?_)
    ⟨purchase, hp, rfl⟩ (fun id' hwrites => Eq.symm hwrites) (fun t hsets => ?_) fun t ht => ?_
  · exact Or.inr (Or.inr ⟨_, List.mem_append_right _ (List.mem_singleton_self _), rfl⟩)
  · have hsame : purchase.accountId = t := hsets
    rw [htenant, haccount, hsame]
  · exact ⟨markCompleted purchase a, (mem_write_iff h ha).2 (Or.inl rfl), rfl, rfl, ht⟩

theorem sound_answered {version : Nat} {status : StripeStatus} (h : Sound r (.answered id version status :: rest))
    (hfits : r.Fits (.answered id version status)) :
    Sound (r.step (.answered id version status)).1 (rest ++ (r.step (.answered id version status)).2.toList) := by
  obtain ⟨⟨p, hp, hpid⟩, hversion⟩ := h.valid _ List.mem_cons_self
  simp only [Records.Fits] at hfits
  simp only [Records.step]
  cases hfor : r.rowFor id with
  | none =>
    -- No row carries the subscription, so nobody waits for this handler.
    have hnobody : ∀ a ∈ r.accounts, a.stripeSubscriptionId ≠ some id := by
      intro a ha hid
      obtain ⟨b, hb, -⟩ := rowFor_of_carries ha hid
      rw [hfor] at hb
      cases hb
    refine sound_exchange h (fun x hx => absurd hx List.not_mem_nil) (fun a ha id' hid hwrites => ?_) fun t hsets => ?_
    · have hsame : id = id' := hwrites.1
      rw [← hsame] at hid
      exact absurd hid (hnobody a ha)
    · obtain ⟨a, ha, -, hid, -⟩ := hsets
      exact absurd hid (hnobody a ha)
  | some a =>
    rw [hfor] at hfits
    obtain ⟨hbought, hlater⟩ := hfits
    have hbought : r.Bought a id := hbought
    have ha := rowFor_mem hfor
    refine sound_write h ha (patches_applied id version status) hbought (fun hdone => (h.completed a ha hdone).2)
      (fun v hv => ?_) (fun hdone => ?_) ?_ (fun id' hwrites => hwrites.1.symm) (fun t hsets => ?_) fun t ht => ht
    · cases hv
      exact ⟨status, hversion, rfl⟩
    · by_cases hlatest : version = (r.states id).length - 1
      · exact Or.inl (congrArg some hlatest)
      · -- An older state was written, so another handler is still to write the latest.
        refine Or.inr ?_
        obtain ⟨id', hid'⟩ := Option.ne_none_iff_exists'.1 (h.completed a ha hdone).1
        have hsame : id = id' := h.id_of_bought hbought (h.own a ha id' hid')
        subst hsame
        have hlt : version < (r.states id).length := (List.getElem?_eq_some_iff.1 hversion).choose
        rcases h.current a ha hdone id hid' with hseen | hdue | hdue | ⟨x, hx, hxid⟩
        · rw [hseen, Option.all_some, decide_eq_true_eq] at hlater
          omega
        · exact Or.inl hdue
        · exact Or.inr (Or.inl hdue)
        · rcases List.mem_cons.1 hx with rfl | hx
          · exact absurd hxid.2 hlatest
          · exact Or.inr (Or.inr ⟨x, List.mem_append_left _ hx, hxid⟩)
    · refine ⟨?_, fun t ht => (h.tenant a ha t ht).2⟩
      show accountStatusForStripe status ≠ .checkoutPending
      cases status <;> decide
    · obtain ⟨b, hb, -, hid, hbt⟩ := hsets
      rw [← h.eq_of_bought hb ha (h.own b hb id hid) hbought]
      exact hbt

/-- The tenant's status is set as its rows stand. -/
theorem sound_reconciling (h : Sound r (.reconciling a :: rest)) (hfits : r.Fits (.reconciling a)) :
    Sound (r.step (.reconciling a)).1 (rest ++ (r.step (.reconciling a)).2.toList) := by
  obtain ⟨hpending, hthere⟩ := h.valid _ List.mem_cons_self
  simp only [Records.Fits] at hfits
  simp only [Records.step, Records.reconcileEntitlement]
  cases htenant : a.tenantId with
  | none =>
    refine sound_exchange h (fun x hx => absurd hx List.not_mem_nil) (fun _ _ _ _ hwrites => hwrites.elim) fun t hsets => ?_
    have hsame : a.tenantId = some t := hsets
    rw [htenant] at hsame
    cases hsame
  | some t =>
    rw [htenant] at hfits
    simp only [] at hfits ⊢
    rw [if_neg (not_or.2 ⟨hpending, hthere t htenant⟩)]
    have hset : ∀ {t' : Text} {x : Option TenantStatus}, r.tenants t' ≠ none → x ≠ none →
        Function.update r.tenants t x t' ≠ none := by
      intro t' x ht' hx
      rw [Function.update_apply]
      split
      · exact hx
      · exact ht'
    refine ⟨h.sessions, h.purchases, h.states, h.own, h.completed, h.seen,
      fun b hb t' ht' => ⟨(h.tenant b hb t' ht').1, hset (h.tenant b hb t' ht').2 (Option.some_ne_none _)⟩, ?_, ?_, ?_⟩
    · intro x hx
      have hvalid := h.valid x (List.mem_cons_of_mem _ (by simpa using hx))
      cases x with
      | binding p => exact hvalid
      | retrieving id => exact hvalid
      | answered id version status => exact hvalid
      | reconciling b => exact ⟨hvalid.1, fun t' ht' => hset (hvalid.2 t' ht') (Option.some_ne_none _)⟩
    · intro b hb hdone id hid
      rcases h.current b hb hdone id hid with hseen | hdue | hdue | ⟨x, hx, hxid⟩
      · exact Or.inl hseen
      · exact Or.inr (Or.inl hdue)
      · exact Or.inr (Or.inr (Or.inl hdue))
      · rcases List.mem_cons.1 hx with rfl | hx
        · exact hxid.elim
        · exact Or.inr (Or.inr (Or.inr ⟨x, List.mem_append_left _ hx, hxid⟩))
    · intro t'
      by_cases hsame : t' = t
      · subst hsame
        refine Or.inl ?_
        show Function.update r.tenants t' _ t' = some .active ↔ r.paying t' = true
        rw [Function.update_self, hfits]
        split
        next hpays => simp [hpays]
        next hpays => simp [hpays]
      · rcases h.right t' with hright | ⟨x, hx, hxt⟩
        · refine Or.inl ?_
          show Function.update r.tenants t _ t' = some .active ↔ r.paying t' = true
          rw [Function.update_of_ne hsame]
          exact hright
        · rcases List.mem_cons.1 hx with rfl | hx
          · have hother : a.tenantId = some t' := hxt
            rw [htenant] at hother
            exact absurd (Option.some.inj hother).symm hsame
          · refine Or.inr ⟨x, List.mem_append_left _ hx, ?_⟩
            cases x with
            | binding p => exact hxt
            | retrieving id => exact hxt
            | answered id version status => exact hxt
            | reconciling b => exact hxt

/-- **A handler that fits where it takes its step keeps the invariant.** -/
theorem sound_step {handler : Handler} (h : Sound r (handler :: rest)) (hfits : r.Fits handler) :
    Sound (r.step handler).1 (rest ++ (r.step handler).2.toList) := by
  cases handler with
  | binding purchase => exact sound_binding h
  | retrieving id => exact sound_retrieving h
  | answered id version status => exact sound_answered h hfits
  | reconciling a => exact sound_reconciling h hfits

/-! ## Deliveries -/

/-- A handler starts for an event, which need not be delivered again. -/
theorem sound_delivered {event : Event} {handler : Handler} (h : Sound r work) (hvalid : r.Valid handler)
    (hsubscription : ∀ id, event = .subscription id → r.Writes id handler)
    (hcheckout : ∀ p ∈ r.purchases, event = .checkout p.session → r.Writes p.subscription handler) :
    Sound (r.delivered event) (work ++ [handler]) := by
  have hnew : handler ∈ work ++ [handler] := List.mem_append_right _ (List.mem_singleton_self _)
  refine ⟨h.sessions, h.purchases, h.states, h.own, h.completed, h.seen, h.tenant, ?_, ?_, ?_⟩
  · intro x hx
    rcases List.mem_append.1 hx with hx | hx
    · exact h.valid x hx
    · rw [List.mem_singleton.1 hx]
      exact hvalid
  · intro a ha hdone id hid
    have hstays : ∀ e ∈ r.due, e ≠ event → e ∈ (r.delivered event).due :=
      fun e he hne => List.mem_filter.2 ⟨he, decide_eq_true hne⟩
    rcases h.current a ha hdone id hid with hseen | ⟨p, hp, hpid, hdue⟩ | hdue | ⟨x, hx, hxid⟩
    · exact Or.inl hseen
    · by_cases he : event = .checkout p.session
      · exact Or.inr (Or.inr (Or.inr ⟨handler, hnew, by rw [← hpid]; exact hcheckout p hp he⟩))
      · exact Or.inr (Or.inl ⟨p, hp, hpid, hstays _ hdue (Ne.symm he)⟩)
    · by_cases he : event = .subscription id
      · exact Or.inr (Or.inr (Or.inr ⟨handler, hnew, hsubscription id he⟩))
      · exact Or.inr (Or.inr (Or.inl (hstays _ hdue (Ne.symm he))))
    · exact Or.inr (Or.inr (Or.inr ⟨x, List.mem_append_left _ hx, hxid⟩))
  · intro t
    exact (h.right t).imp_right fun ⟨x, hx, hxt⟩ => ⟨x, List.mem_append_left _ hx, hxt⟩

/-- The row of a checkout is given its tenant, which is made active. -/
def Records.reserve (r : Records) (a : CustomerAccount) : Records :=
  { r with
    accounts := r.accounts.upsert a.sessionId fun a => { a with tenantId := some a.accountId }
    tenants := Function.update r.tenants a.accountId (some .active) }

theorem sound_reserve {p : Purchase} (h : Sound r (.retrieving p.subscription :: rest)) (hp : p ∈ r.purchases)
    (ha : a ∈ r.accounts) (hsession : a.sessionId = p.session) (haccount : a.accountId = p.accountId)
    (hopen : a.checkoutCompleted = false) : Sound (r.reserve a) (rest ++ [.binding p]) := by
  have hmem : ∀ {b : CustomerAccount}, b ∈ (r.reserve a).accounts ↔
      b = { a with tenantId := some a.accountId } ∨ (b ∈ r.accounts ∧ b.sessionId ≠ a.sessionId) := by
    intro b
    refine mem_upsert_iff.trans (or_congr_left ⟨?_, fun hb => ⟨a, ha, rfl, hb.symm⟩⟩)
    rintro ⟨c, hc, hsame, rfl⟩
    rw [h.eq_of_session hc ha hsame]
  have hthere : ∀ t, r.tenants t ≠ none → (r.reserve a).tenants t ≠ none := by
    intro t ht
    show Function.update r.tenants a.accountId (some .active) t ≠ none
    rw [Function.update_apply]
    split
    · exact nofun
    · exact ht
  have hcarries : ∀ id t, r.Carries id t → (r.reserve a).Carries id t := by
    rintro id t ⟨b, hb, hdone, hid, ht⟩
    refine ⟨b, hmem.2 (Or.inr ⟨hb, fun hsame => ?_⟩), hdone, hid, ht⟩
    rw [h.eq_of_session hb ha hsame, hopen] at hdone
    cases hdone
  have hnew : Handler.binding p ∈ rest ++ [.binding p] := List.mem_append_right _ (List.mem_singleton_self _)
  refine ⟨upsert_sessions (fun _ => rfl) h.sessions, h.purchases, h.states, ?_, ?_, ?_, ?_, ?_, ?_, ?_⟩
  · intro b hb id hid
    rcases hmem.1 hb with rfl | ⟨hb, -⟩
    · exact h.own a ha id hid
    · exact h.own b hb id hid
  · intro b hb hdone
    rcases hmem.1 hb with rfl | ⟨hb, -⟩
    · exact ⟨(h.completed a ha hdone).1, rfl⟩
    · exact h.completed b hb hdone
  · intro b hb v hv
    rcases hmem.1 hb with rfl | ⟨hb, -⟩
    · exact h.seen a ha v hv
    · exact h.seen b hb v hv
  · intro b hb t ht
    rcases hmem.1 hb with rfl | ⟨hb, -⟩
    · cases ht
      refine ⟨rfl, ?_⟩
      show Function.update r.tenants a.accountId (some .active) a.accountId ≠ none
      rw [Function.update_self]
      exact nofun
    · exact ⟨(h.tenant b hb t ht).1, hthere t (h.tenant b hb t ht).2⟩
  · intro x hx
    rcases List.mem_append.1 hx with hx | hx
    · have hvalid := h.valid x (List.mem_cons_of_mem _ hx)
      cases x with
      | binding q =>
        obtain ⟨hq, b, hb, hqsession, hqaccount, htenant⟩ := hvalid
        refine ⟨hq, ?_⟩
        by_cases hsame : b.sessionId = a.sessionId
        · exact ⟨_, hmem.2 (Or.inl rfl), hsame.symm.trans hqsession, by rw [← h.eq_of_session hb ha hsame]; exact hqaccount, rfl⟩
        · exact ⟨b, hmem.2 (Or.inr ⟨hb, hsame⟩), hqsession, hqaccount, htenant⟩
      | retrieving id => exact hvalid
      | answered id version status => exact hvalid
      | reconciling b => exact ⟨hvalid.1, fun t ht => hthere t (hvalid.2 t ht)⟩
    · rw [List.mem_singleton.1 hx]
      exact ⟨hp, _, hmem.2 (Or.inl rfl), hsession, haccount, rfl⟩
  · intro b hb hdone id hid
    rcases hmem.1 hb with rfl | ⟨hb, -⟩
    · exact absurd (hdone.symm.trans hopen) nofun
    · rcases h.current b hb hdone id hid with hseen | hdue | hdue | ⟨x, hx, hxid⟩
      · exact Or.inl hseen
      · exact Or.inr (Or.inl hdue)
      · exact Or.inr (Or.inr (Or.inl hdue))
      · rcases List.mem_cons.1 hx with rfl | hx
        · exact Or.inr (Or.inr (Or.inr ⟨_, hnew, hxid⟩))
        · exact Or.inr (Or.inr (Or.inr ⟨x, List.mem_append_left _ hx, hxid⟩))
  · intro t
    by_cases ht : p.accountId = t
    · exact Or.inr ⟨_, hnew, ht⟩
    · have hother : a.accountId ≠ t := fun he => ht (haccount.symm.trans he)
      rcases h.right t with hright | ⟨x, hx, hxt⟩
      · refine Or.inl ?_
        have hpaying : (r.reserve a).paying t = r.paying t := by
          refine paying_upsert (fun b hb hsame => ?_) rfl
          rw [h.eq_of_session hb ha hsame]
          refine ⟨fun hat => hother (h.tenant a ha t hat).1.symm, fun hat => hother (Option.some.inj hat)⟩
        show Function.update r.tenants a.accountId _ t = some .active ↔ (r.reserve a).paying t = true
        rw [Function.update_of_ne (Ne.symm hother), hpaying]
        exact hright
      · rcases List.mem_cons.1 hx with rfl | hx
        · obtain ⟨b, hb, hdone, hid, hbt⟩ := hxt
          -- The row that carries the subscription is the one whose checkout is open.
          have hba := h.eq_of_bought hb ha (h.own b hb _ hid) ⟨p, hp, hsession.symm, rfl⟩
          rw [hba, hopen] at hdone
          cases hdone
        · refine Or.inr ⟨x, List.mem_append_left _ hx, ?_⟩
          cases x with
          | binding q => exact hxt
          | retrieving id => exact hcarries id t hxt
          | answered id version status => exact hcarries id t hxt
          | reconciling b => exact hxt

theorem get_mem {session : Text} (h : accounts.get session = some a) : a ∈ accounts ∧ a.sessionId = session :=
  ⟨List.mem_of_find?_eq_some h, by simpa using List.find?_some h⟩

theorem sound_startCheckout {p : Purchase} (h : Sound r (work ++ [.retrieving p.subscription])) (hp : p ∈ r.purchases) :
    Sound (r.startCheckout p).1 (work ++ [(r.startCheckout p).2]) := by
  unfold Records.startCheckout
  split
  next => exact h
  next a hget =>
  split
  next => exact h
  next hopen =>
    obtain ⟨ha, hsession⟩ := get_mem hget
    simp only [not_or, not_not] at hopen
    have hreserve : ({ r with
        accounts := r.accounts.upsert p.session fun a => { a with tenantId := some a.accountId }
        tenants := Function.update r.tenants a.accountId (some .active) } : Records) = r.reserve a := by
      rw [Records.reserve, hsession]
    rw [hreserve]
    have hfirst : Sound r (.retrieving p.subscription :: work) := h.mem_congr fun x => by
      rw [List.mem_append, List.mem_singleton, List.mem_cons, or_comm]
    exact sound_reserve hfirst hp ha hsession hopen.1 (Bool.eq_false_iff.2 hopen.2)

theorem purchaseOf_mem {p : Purchase} (h : r.purchaseOf id = some p) : p ∈ r.purchases ∧ p.subscription = id :=
  ⟨List.mem_of_find?_eq_some h, by simpa using List.find?_some h⟩

theorem sound_deliver {event : Event} (h : Sound r work) :
    Sound (r.deliver event).1 (work ++ (r.deliver event).2.toList) := by
  unfold Records.deliver
  split
  next session =>
    split
    next =>
      rw [Option.toList_none, List.append_nil]
      exact h
    next p hp =>
      have hpmem := List.mem_of_find?_eq_some hp
      have hpsession : p.session = session := by simpa using List.find?_some hp
      simp only [Option.toList_some]
      refine sound_startCheckout (sound_delivered h ⟨p, hpmem, rfl⟩ (fun id he => nomatch he) fun q hq he => ?_) hpmem
      have hsame : q.session = session := (Event.checkout.inj he).symm
      exact congrArg (·.subscription) (h.eq_of_purchase hpmem hq (Or.inl (hpsession.trans hsame.symm)))
  next id =>
    split
    next =>
      rw [Option.toList_none, List.append_nil]
      exact h
    next p hp =>
      obtain ⟨hpmem, hpid⟩ := purchaseOf_mem hp
      rw [Option.toList_some]
      exact sound_delivered h ⟨p, hpmem, hpid⟩ (fun id' he => Event.subscription.inj he) fun q _ he => nomatch he

/-! ## What happens at Stripe -/

theorem sound_begin {session accountId : Text} {claimedAt : Nat} (h : Sound r work) :
    Sound (r.begin session accountId claimedAt) work := by
  unfold Records.begin
  split
  next => exact h
  next hfresh =>
    simp only [List.any_eq_true, decide_eq_true_eq, not_exists, not_and] at hfresh
    have hold : ∀ {b : CustomerAccount}, b ∈ r.accounts → b ∈ r.accounts ++
        [{ sessionId := session, accountId := accountId, claimedAt := claimedAt }] := fun hb => List.mem_append_left _ hb
    have hcarries : ∀ id t, r.Carries id t → Records.Carries { r with accounts := r.accounts ++
        [{ sessionId := session, accountId := accountId, claimedAt := claimedAt }] } id t :=
      fun id t ⟨b, hb, hrest⟩ => ⟨b, hold hb, hrest⟩
    refine ⟨?_, h.purchases, h.states, ?_, ?_, ?_, ?_, ?_, ?_, ?_⟩
    · refine List.pairwise_append.2 ⟨h.sessions, List.pairwise_singleton _ _, fun b hb c hc => ?_⟩
      rw [List.mem_singleton.1 hc]
      exact hfresh b hb
    · intro b hb id hid
      rcases List.mem_append.1 hb with hb | hb
      · exact h.own b hb id hid
      · rw [List.mem_singleton.1 hb] at hid
        cases hid
    · intro b hb hdone
      rcases List.mem_append.1 hb with hb | hb
      · exact h.completed b hb hdone
      · rw [List.mem_singleton.1 hb] at hdone
        cases hdone
    · intro b hb v hv
      rcases List.mem_append.1 hb with hb | hb
      · exact h.seen b hb v hv
      · rw [List.mem_singleton.1 hb] at hv
        cases hv
    · intro b hb t ht
      rcases List.mem_append.1 hb with hb | hb
      · exact h.tenant b hb t ht
      · rw [List.mem_singleton.1 hb] at ht
        cases ht
    · intro x hx
      have hvalid := h.valid x hx
      cases x with
      | binding q =>
        obtain ⟨hq, b, hb, hrest⟩ := hvalid
        exact ⟨hq, b, hold hb, hrest⟩
      | retrieving id => exact hvalid
      | answered id version status => exact hvalid
      | reconciling b => exact hvalid
    · intro b hb hdone id hid
      rcases List.mem_append.1 hb with hb | hb
      · exact h.current b hb hdone id hid
      · rw [List.mem_singleton.1 hb] at hdone
        cases hdone
    · intro t
      rcases h.right t with hright | ⟨x, hx, hxt⟩
      · refine Or.inl ?_
        unfold Records.Right Records.paying at hright ⊢
        rw [List.any_append]
        simpa using hright
      · refine Or.inr ⟨x, hx, ?_⟩
        cases x with
        | binding q => exact hxt
        | retrieving id => exact hcarries id t hxt
        | answered id version status => exact hcarries id t hxt
        | reconciling b => exact hxt

/-- More purchases, and more states of subscriptions: what is bought now is due, and so is what has changed. -/
theorem sound_stripe {purchases : List Purchase} {states : Text → List StripeStatus} {due : List Event} (h : Sound r work)
    (hunique : purchases.Pairwise fun p q => p.session ≠ q.session ∧ p.subscription ≠ q.subscription)
    (hmore : ∀ p ∈ r.purchases, p ∈ purchases) (hstates : ∀ p ∈ purchases, states p.subscription ≠ [])
    (hgrown : ∀ p ∈ r.purchases, r.states p.subscription <+: states p.subscription)
    (hdue : ∀ e ∈ r.due, e ∈ due)
    (hchanged : ∀ p ∈ r.purchases, states p.subscription = r.states p.subscription ∨ .subscription p.subscription ∈ due) :
    Sound { r with purchases := purchases, states := states, due := due } work := by
  have hgetElem : ∀ p ∈ r.purchases, ∀ {v : Nat} {status : StripeStatus},
      (r.states p.subscription)[v]? = some status → (states p.subscription)[v]? = some status := by
    intro p hp v status hv
    obtain ⟨later, hlater⟩ := hgrown p hp
    obtain ⟨hlt, -⟩ := List.getElem?_eq_some_iff.1 hv
    rw [← hlater, List.getElem?_append_left hlt, hv]
  refine ⟨h.sessions, hunique, hstates, ?_, h.completed, ?_, h.tenant, ?_, ?_, h.right⟩
  · intro b hb id hid
    obtain ⟨p, hp, hrest⟩ := h.own b hb id hid
    exact ⟨p, hmore p hp, hrest⟩
  · intro b hb v hv
    obtain ⟨id, status, hid, hstatus, hrest⟩ := h.seen b hb v hv
    obtain ⟨p, hp, -, rfl⟩ := h.own b hb id hid
    exact ⟨_, status, hid, hgetElem p hp hstatus, hrest⟩
  · intro x hx
    have hvalid := h.valid x hx
    cases x with
    | binding q => exact ⟨hmore q hvalid.1, hvalid.2⟩
    | retrieving id =>
      obtain ⟨p, hp, hpid⟩ := hvalid
      exact ⟨p, hmore p hp, hpid⟩
    | answered id version status =>
      obtain ⟨⟨p, hp, rfl⟩, hversion⟩ := hvalid
      exact ⟨⟨p, hmore p hp, rfl⟩, hgetElem p hp hversion⟩
    | reconciling b => exact hvalid
  · intro b hb hdone id hid
    obtain ⟨p, hp, -, hpid⟩ := h.own b hb id hid
    subst hpid
    rcases hchanged p hp with hsame | hnew
    · rcases h.current b hb hdone _ hid with hseen | ⟨q, hq, hqid, hqdue⟩ | hsdue | ⟨x, hx, hxid⟩
      · refine Or.inl ?_
        show b.seen = some ((states p.subscription).length - 1)
        rw [hsame]
        exact hseen
      · exact Or.inr (Or.inl ⟨q, hmore q hq, hqid, hdue _ hqdue⟩)
      · exact Or.inr (Or.inr (Or.inl (hdue _ hsdue)))
      · refine Or.inr (Or.inr (Or.inr ⟨x, hx, ?_⟩))
        cases x with
        | binding q => exact hxid
        | retrieving id => exact hxid
        | answered id version status =>
          refine ⟨hxid.1, ?_⟩
          show version = (states p.subscription).length - 1
          rw [hsame]
          exact hxid.2
        | reconciling b => exact hxid
    · exact Or.inr (Or.inr (Or.inl hnew))

theorem sound_buy {session subscription : Text} {status : StripeStatus} (h : Sound r work) :
    Sound (r.buy session subscription status) work := by
  unfold Records.buy
  split
  next => exact h
  next a _ =>
  split
  next => exact h
  next hfresh =>
    simp only [List.any_eq_true, decide_eq_true_eq, not_exists, not_and, not_or] at hfresh
    have hstates : ∀ p ∈ r.purchases, Function.update r.states subscription [status] p.subscription = r.states p.subscription :=
      fun p hp => Function.update_of_ne (hfresh p hp).2 _ _
    refine sound_stripe h ?_ (fun p hp => List.mem_append_left _ hp) ?_ (fun p hp => ?_)
      (fun e he => List.mem_append_left _ he) fun p hp => Or.inl (hstates p hp)
    · refine List.pairwise_append.2 ⟨h.purchases, List.pairwise_singleton _ _, fun p hp q hq => ?_⟩
      rw [List.mem_singleton.1 hq]
      exact hfresh p hp
    · intro p hp
      rcases List.mem_append.1 hp with hp | hp
      · rw [hstates p hp]
        exact h.states p hp
      · rw [List.mem_singleton.1 hp]
        show Function.update r.states subscription [status] subscription ≠ []
        rw [Function.update_self]
        exact List.cons_ne_nil _ _
    · rw [hstates p hp]

theorem sound_change {subscription : Text} {status : StripeStatus} (h : Sound r work) :
    Sound (r.change subscription status) work := by
  unfold Records.change
  split
  next => exact h
  next =>
    refine sound_stripe h h.purchases (fun p hp => hp) (fun p hp => ?_) (fun p _ => ?_)
      (fun e he => List.mem_append_left _ he) fun p _ => ?_
    · rw [Function.update_apply]
      split
      next => exact List.append_ne_nil_of_right_ne_nil _ (List.cons_ne_nil _ _)
      next => exact h.states p hp
    · rw [Function.update_apply]
      split
      next hsame =>
        rw [hsame]
        exact List.prefix_append _ _
      next => exact List.prefix_rfl
    · by_cases hsame : p.subscription = subscription
      · rw [hsame]
        exact Or.inr (List.mem_append_right _ (List.mem_singleton_self _))
      · exact Or.inl (Function.update_of_ne hsame _ _)

end

/-! ## Every run -/

section

variable {s : World} {ops : List Op}

theorem sound_exec {op : Op} (h : Sound s.records s.handlers) (hmeets : Meets s op) :
    Sound (exec s op).records (exec s op).handlers := by
  cases op with
  | begin session accountId claimedAt => exact sound_begin h
  | buy session subscription status => exact sound_buy h
  | change subscription status => exact sound_change h
  | deliver event => exact sound_deliver h
  | go i =>
    simp only [Meets] at hmeets
    simp only [exec]
    split
    next => exact h
    next handler hhandler =>
      rw [hhandler] at hmeets
      obtain ⟨hi, hget⟩ := List.getElem?_eq_some_iff.1 hhandler
      have hperm : (handler :: s.handlers.eraseIdx i).Perm s.handlers := by
        rw [← hget]
        exact List.getElem_cons_eraseIdx_perm hi
      exact sound_step (h.mem_congr fun x => hperm.mem_iff.symm) hmeets

theorem sound_start : Sound ({} : World).records ({} : World).handlers where
  sessions := .nil
  purchases := .nil
  states := nofun
  own := nofun
  completed := nofun
  seen := nofun
  tenant := nofun
  valid := nofun
  current := nofun
  right _ := Or.inl ⟨nofun, nofun⟩

/-- Nothing is left to be written. -/
theorem converged_of_sound {r : Records} (h : Sound r []) (hdue : r.due = []) : Converged r where
  status a ha hdone id hid := by
    rcases h.current a ha hdone id hid with hseen | ⟨p, _, _, hp⟩ | hsubscription | ⟨x, hx, _⟩
    · obtain ⟨id', status, hid', hstatus, hsame⟩ := h.seen a ha _ hseen
      rw [hid] at hid'
      cases hid'
      exact ⟨status, by rw [List.getLast?_eq_getElem?, hstatus], hsame⟩
    · rw [hdue] at hp
      cases hp
    · rw [hdue] at hsubscription
      cases hsubscription
    · cases hx
  own := h.own
  distinct a ha b hb id hida hidb := h.eq_of_bought ha hb (h.own a ha id hida) (h.own b hb id hidb)
  tenant t := (h.right t).resolve_right fun ⟨_, hx, _⟩ => nomatch hx

/-- **Billing converges**: when all handlers have settled after a run in which each fits where it takes a step, every
completed row shows the latest state of its own subscription, and a tenant is active exactly when some row of it pays. -/
theorem entitlement_converges (hmeets : Along exec Meets ops {}) (hsettled : (run ops).Settled) :
    Converged (run ops).records := by
  have hsound : Sound (run ops).records (run ops).handlers :=
    hmeets.invariant (Q := fun s => Sound s.records s.handlers) (fun s op hop h => sound_exec h hop) sound_start
  rw [hsettled.1] at hsound
  exact converged_of_sound hsound hsettled.2

end

/-! ## A customer who comes back -/

/-- A subscription is bought, with its handler, and so is cancelled. -/
def bought (session subscription : Text) (claimedAt : Nat) : List Op :=
  [.begin session "user-a".toList claimedAt, .buy session subscription .active, .deliver (.checkout session),
    .go 0, .go 0, .go 0, .go 0]

def cancelled (subscription : Text) : List Op :=
  [.change subscription .canceled, .deliver (.subscription subscription), .go 0, .go 0, .go 0]

/-- One subscription is cancelled and another bought. -/
def comesBack : List Op :=
  bought "cs-1".toList "sub-1".toList 0 ++ cancelled "sub-1".toList ++ bought "cs-2".toList "sub-2".toList 1

theorem back_and_active : Converged (run comesBack).records ∧ (run comesBack).records.tenants "user-a".toList = some .active :=
  ⟨entitlement_converges (by decide +kernel) (by decide +kernel), by decide +kernel⟩

/-- The end of the first subscription is told once more, and the tenant of the paying customer suspended. -/
theorem suspended_while_paying : ¬∀ ops : List Op, (run ops).Settled → Converged (run ops).records := by
  intro h
  have hrun := (h (comesBack ++ [.deliver (.subscription "sub-1".toList), .go 0, .go 0, .go 0]) (by decide +kernel)).tenant
    "user-a".toList
  revert hrun
  decide +kernel

end Zenod.Billing
