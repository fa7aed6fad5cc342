/-
What the identity store keeps over any calls.

`identities_consistent`: the snapshot stays well-formed, every user keeps an
identity and every account its owner, and two subjects share a user only by an
explicit link; but a subject whose user was founded by it and that was
unlinked since can not sign in again.
-/
import Zenod.Customers.Identity
import Mathlib.Data.List.Nodup

namespace Zenod.Customers

open Text

variable {sha256 : Text → Text} {s s' : Snapshot} {store : CustomerIdentityStore} {op : Op} {accepted : Bool}
  {u : Text}

/-! ## Well-formed snapshots -/

theorem unique_eq_ok {label : Text} {values : List Text} : ∀ {seen r : List Text}, unique label seen values = .ok r ↔
    (values.Nodup ∧ [] ∉ values ∧ ∀ v ∈ values, v ∉ seen) ∧ r = values.reverse ++ seen := by
  induction values with
  | nil =>
    intro seen r
    simp [unique, eq_comm]
  | cons value values ih =>
    intro seen r
    unfold unique
    split
    · next hbad =>
      simp only [reduceCtorEq, false_iff]
      rintro ⟨⟨-, hempty, hseen⟩, -⟩
      rcases hbad with rfl | hmem
      · exact hempty List.mem_cons_self
      · exact hseen value List.mem_cons_self hmem
    · next hgood =>
      rw [not_or] at hgood
      rw [ih, List.nodup_cons, List.reverse_cons, List.append_assoc, List.singleton_append]
      refine and_congr_left fun _ => ⟨?_, ?_⟩
      · rintro ⟨hnodup, hempty, hseen⟩
        refine ⟨⟨fun hmem => hseen value hmem List.mem_cons_self, hnodup⟩, ?_, fun v hv => ?_⟩
        · simp only [List.mem_cons, not_or]
          exact ⟨Ne.symm hgood.1, hempty⟩
        · rcases List.mem_cons.1 hv with rfl | hv
          · exact hgood.2
          · exact fun h => hseen v hv (List.mem_cons_of_mem _ h)
      · rintro ⟨⟨hnew, hnodup⟩, hempty, hseen⟩
        refine ⟨hnodup, fun h => hempty (List.mem_cons_of_mem _ h), fun v hv h => ?_⟩
        rcases List.mem_cons.1 h with rfl | h
        · exact hnew hv
        · exact hseen v (List.mem_cons_of_mem _ hv) h

theorem each_eq_ok {α : Type} {check : α → Except Text Unit} {l : List α} :
    each check l = .ok () ↔ ∀ a ∈ l, check a = .ok () := by
  induction l with
  | nil => simp [each]
  | cons a l ih => rw [each, bind_unit_ok, ih, List.forall_mem_cons]

/-- The subject of an identity. -/
def CustomerIdentityRecord.subject (i : CustomerIdentityRecord) : CustomerIdentityProvider × Text :=
  (i.provider, i.providerSubject)

def keyOf (subject : CustomerIdentityProvider × Text) : Text := subject.1.text ++ ":".toList ++ subject.2

theorem text_github : CustomerIdentityProvider.github.text = "github".toList := rfl

theorem text_google : CustomerIdentityProvider.google.text = "google".toList := rfl

theorem keyOf_injective : Function.Injective keyOf := by
  rintro ⟨p, t⟩ ⟨p', t'⟩ h
  have hsix : ∀ p : CustomerIdentityProvider, p.text.length = 6 := by
    rintro (_ | _) <;> simp [text_github, text_google]
  simp only [keyOf, List.append_assoc] at h
  obtain ⟨htext, ht⟩ := List.append_inj h ((hsix p).trans (hsix p').symm)
  have hp : p = p' := by
    cases p <;> cases p' <;> simp [text_github, text_google] at htext ⊢
  rw [hp, List.append_cancel_left ht]

theorem mapM_customerIdentityKey {l : List CustomerIdentityRecord} {keys : List Text} :
    l.mapM customerIdentityKey = .ok keys ↔
      (∀ i ∈ l, trim i.providerSubject ≠ []) ∧ keys = (l.map (·.subject)).map keyOf := by
  induction l generalizing keys with
  | nil =>
    rw [List.mapM_nil, pure_ok]
    exact ⟨fun h => ⟨fun _ hmem => (by cases hmem), h.symm⟩, fun h => h.2.symm⟩
  | cons i l ih =>
    rw [List.mapM_cons, bind_ok]
    simp only [bind_ok, pure_ok, ih, List.forall_mem_cons, List.map_cons]
    constructor
    · rintro ⟨key, hkey, rest, ⟨hrest, rfl⟩, rfl⟩
      unfold customerIdentityKey at hkey
      split at hkey
      · cases hkey
      · next hne =>
        refine ⟨⟨hne, hrest⟩, ?_⟩
        rw [← Except.ok.inj hkey]
        rfl
    · rintro ⟨⟨hne, hrest⟩, rfl⟩
      exact ⟨_, if_neg hne, _, ⟨hrest, rfl⟩, rfl⟩

/-- What `assertProviderNeutralCustomerSnapshot` asks. -/
structure WellFormed (s : Snapshot) : Prop where
  version : s.schemaVersion = 1
  users : (s.users.map (·.userId)).Nodup ∧ [] ∉ s.users.map (·.userId)
  spoken : ∀ i ∈ s.identities, trim i.providerSubject ≠ []
  subjects : (s.identities.map (·.subject)).Nodup
  accounts : (s.accountOwners.map (·.accountId)).Nodup ∧ [] ∉ s.accountOwners.map (·.accountId)
  bindings : ((s.vaultBindings.map (·.bindingId)).Nodup ∧ [] ∉ s.vaultBindings.map (·.bindingId)) ∧
    ((s.vaultBindings.map (·.tenantId)).Nodup ∧ [] ∉ s.vaultBindings.map (·.tenantId)) ∧
    ∀ b ∈ s.vaultBindings, checkBinding b = .ok ()
  identified : ∀ i ∈ s.identities, i.userId ∈ s.users.map (·.userId)
  owned : ∀ o ∈ s.accountOwners, o.userId ∈ s.users.map (·.userId)

theorem known_eq_ok {ids : List Text} {label : Text} : known ids label u = .ok () ↔ u ∈ ids := by
  unfold known
  split <;> simp_all

/-- **The check is the invariant.** -/
theorem assert_iff : assertProviderNeutralCustomerSnapshot s = .ok () ↔ WellFormed s := by
  have hunique : ∀ {label : Text} {values r : List Text}, unique label [] values = .ok r ↔
      (values.Nodup ∧ [] ∉ values) ∧ r = values.reverse := by
    intro label values r
    rw [unique_eq_ok]
    simp
  have hkeys : ∀ l : List (CustomerIdentityProvider × Text), [] ∉ l.map keyOf := by
    intro l hmem
    obtain ⟨⟨p, t⟩, -, hkey⟩ := List.mem_map.1 hmem
    cases p <;> simp [keyOf, text_github, text_google] at hkey
  unfold assertProviderNeutralCustomerSnapshot
  by_cases hversion : s.schemaVersion = 1
  · simp only [hversion, ne_eq, not_true_eq_false, if_false, ↓bind_unit_ok, bind_ok, hunique, mapM_customerIdentityKey, each_eq_ok,
      known_eq_ok]
    constructor
    · rintro ⟨ids, ⟨husers, rfl⟩, keys, ⟨hspoken, rfl⟩, -, ⟨⟨hsubjects, -⟩, -⟩, -, ⟨haccounts, -⟩, -, ⟨hbindings, -⟩,
        -, ⟨htenants, -⟩, hidentified, howned, hchecked⟩
      simp only [List.mem_reverse] at hidentified howned
      exact ⟨hversion, husers, hspoken, (List.nodup_map_iff keyOf_injective).1 hsubjects, haccounts,
        ⟨hbindings, htenants, hchecked⟩, hidentified, howned⟩
    · intro h
      have hsubjects := (List.nodup_map_iff keyOf_injective).2 h.subjects
      refine ⟨_, ⟨h.users, rfl⟩, _, ⟨h.spoken, rfl⟩, _, ⟨⟨hsubjects, hkeys _⟩, rfl⟩, _, ⟨h.accounts, rfl⟩,
        _, ⟨h.bindings.1, rfl⟩, _, ⟨h.bindings.2.1, rfl⟩, ?_, ?_, h.bindings.2.2⟩
      · simp only [List.mem_reverse]
        exact h.identified
      · simp only [List.mem_reverse]
        exact h.owned
  · simp only [ne_eq, hversion, not_false_eq_true, if_true]
    refine iff_of_false (fun h => ?_) fun h => hversion h.version
    cases h

/-! ## Who signs in as whom -/

/-- A subject and the user it signs in as. -/
structure Sign where
  userId : Text
  provider : CustomerIdentityProvider
  providerSubject : Text
deriving DecidableEq

/-- The users, their subjects, and the owners of accounts. -/
structure Index where
  users : List Text
  signs : List Sign
  owners : List (Text × Text)

def CustomerIdentityRecord.sign (i : CustomerIdentityRecord) : Sign := ⟨i.userId, i.provider, i.providerSubject⟩

def Snapshot.index (s : Snapshot) : Index where
  users := s.users.map (·.userId)
  signs := s.identities.map (·.sign)
  owners := s.accountOwners.map fun o => (o.userId, o.accountId)

/-- The id of the user that a subject founds. -/
def ownId (sha256 : Text → Text) (input : IdentityInput) : Text :=
  customerUserId sha256 input.provider (trim input.providerSubject)

/-- What a call does to the index, accepted or not. -/
inductive Change (sha256 : Text → Text) (x : Index) : Op → Bool → Index → Prop
  | same {op : Op} {accepted : Bool} (h : ∀ u provider, op = .unlinkIdentity u provider → accepted = false) :
    Change sha256 x op accepted x
  | created {input : IdentityInput} {now : Text} (hfresh : ownId sha256 input ∉ x.users) :
    Change sha256 x (.resolveOrCreate input now) true
      { x with
        users := x.users ++ [ownId sha256 input]
        signs := x.signs ++ [⟨ownId sha256 input, input.provider,
          trim input.providerSubject⟩] }
  | linked {u : Text} {input : IdentityInput} {now : Text} (hu : u ∈ x.users)
    (hfree : ∀ sign ∈ x.signs, sign.userId = u → sign.provider ≠ input.provider) :
    Change sha256 x (.linkIdentity u input now) true
      { x with signs := x.signs ++ [⟨u, input.provider, trim input.providerSubject⟩] }
  | unlinked {u : Text} {provider : CustomerIdentityProvider} (h : ∃ sign ∈ x.signs, sign.userId = u ∧ sign.provider ≠ provider) :
    Change sha256 x (.unlinkIdentity u provider) true
      { x with signs := x.signs.filter fun sign => sign.userId ≠ u || sign.provider ≠ provider }
  | bound {u accountId now : Text} (hu : u ∈ x.users) (hfree : ∀ owner ∈ x.owners, owner.2 ≠ accountId) :
    Change sha256 x (.bindAccount u accountId now) true { x with owners := x.owners ++ [(u, accountId)] }

/-! ## A call -/

/-- The snapshot that is stored. -/
def CustomerIdentityStore.stored (store : CustomerIdentityStore) : Snapshot := store.file.getD {}

theorem wellFormed_empty : WellFormed {} := by
  constructor <;> simp

theorem load_eq (h : WellFormed store.stored) : store.load = .ok store.stored := by
  unfold CustomerIdentityStore.stored at h
  unfold CustomerIdentityStore.load CustomerIdentityStore.stored
  cases hfile : store.file with
  | none => rfl
  | some s =>
    rw [hfile, Option.getD_some] at h
    simp only [assert_iff.2 h, Option.getD_some]

theorem reading_eq {α : Type} (h : WellFormed store.stored) (call : Snapshot → Outcome α) :
    store.reading call = call store.stored := by
  unfold CustomerIdentityStore.reading
  rw [load_eq h]

/-- A snapshot is saved if it is well-formed, and refused otherwise. -/
theorem save_cases {α : Type} (s : Snapshot) (answer : Except Text α) :
    (WellFormed s ∧ store.save s answer = (answer, { store with file := some s })) ∨
      (¬WellFormed s ∧ ∃ e, store.save s answer = (.error e, store)) := by
  unfold CustomerIdentityStore.save
  cases h : assertProviderNeutralCustomerSnapshot s with
  | ok a => exact Or.inl ⟨assert_iff.1 h, rfl⟩
  | error e =>
    refine Or.inr ⟨fun hs => ?_, e, rfl⟩
    rw [assert_iff.2 hs] at h
    cases h

theorem map_amend {α β : Type} {p : α → Bool} {f : α → α} {g : α → β} (h : ∀ a, g (f a) = g a) (l : List α) :
    (amend p f l).map g = l.map g := by
  induction l with
  | nil => rfl
  | cons a l ih =>
    unfold amend
    split
    · rw [List.map_cons, List.map_cons, h]
    · rw [List.map_cons, List.map_cons, ih]

theorem index_amendIdentity (i : CustomerIdentityRecord) (input : IdentityInput) : (s.amendIdentity i input).index = s.index := by
  have hsigns : (amend (fun c => decide (c = i)) (·.amended input) s.identities).map (·.sign) = s.identities.map (·.sign) :=
    @map_amend _ _ _ (·.amended input) (·.sign) (fun _ => rfl) s.identities
  unfold Snapshot.index
  rw [← hsigns]
  rfl

theorem index_amendUser (user : CustomerUserRecord) (input : IdentityInput) : (s.amendUser user input).index = s.index := by
  have husers : (amend (fun c => decide (c = user)) (·.amended input) s.users).map (·.userId) = s.users.map (·.userId) :=
    @map_amend _ _ _ (·.amended input) (·.userId) (fun _ => rfl) s.users
  unfold Snapshot.index
  rw [← husers]
  rfl

/-- Well-formedness is about the index and the bindings. -/
theorem wellFormed_iff : WellFormed s ↔ s.schemaVersion = 1 ∧ (s.index.users.Nodup ∧ [] ∉ s.index.users) ∧
    (∀ sign ∈ s.index.signs, trim sign.providerSubject ≠ []) ∧
    (s.index.signs.map fun sign => (sign.provider, sign.providerSubject)).Nodup ∧
    ((s.index.owners.map (·.2)).Nodup ∧ [] ∉ s.index.owners.map (·.2)) ∧
    (∀ sign ∈ s.index.signs, sign.userId ∈ s.index.users) ∧ (∀ o ∈ s.index.owners, o.1 ∈ s.index.users) ∧
    ((s.vaultBindings.map (·.bindingId)).Nodup ∧ [] ∉ s.vaultBindings.map (·.bindingId)) ∧
    ((s.vaultBindings.map (·.tenantId)).Nodup ∧ [] ∉ s.vaultBindings.map (·.tenantId)) ∧
    ∀ b ∈ s.vaultBindings, checkBinding b = .ok () := by
  unfold Snapshot.index
  simp only [List.forall_mem_map, List.map_map, Function.comp_def]
  constructor
  · intro h
    exact ⟨h.version, h.users, h.spoken, h.subjects, h.accounts, h.identified, h.owned, h.bindings⟩
  · rintro ⟨hversion, husers, hspoken, hsubjects, haccounts, hidentified, howned, hbindings⟩
    exact ⟨hversion, husers, hspoken, hsubjects, haccounts, hbindings, hidentified, howned⟩

/-- A snapshot of the same index. -/
theorem WellFormed.of_index (h : WellFormed s) (hindex : s'.index = s.index) (hversion : s'.schemaVersion = s.schemaVersion)
    (hbindings : s'.vaultBindings = s.vaultBindings) : WellFormed s' := by
  rw [wellFormed_iff] at h ⊢
  rw [hindex, hversion, hbindings]
  exact h

theorem principal_isOk {i : CustomerIdentityRecord} (h : i.userId ∈ s.users.map (·.userId)) : (s.principal i).isOk = true := by
  obtain ⟨user, hmem, hid⟩ := List.mem_map.1 h
  unfold Snapshot.principal
  cases hfind : s.users.find? (·.userId = i.userId) with
  | none =>
    have hnot := List.find?_eq_none.1 hfind user hmem
    simp [hid] at hnot
  | some user => rfl

theorem identity?_spec {provider : CustomerIdentityProvider} {subject : Text} {i : CustomerIdentityRecord}
    (h : s.identity? provider subject = some i) : i ∈ s.identities ∧ i.provider = provider ∧ i.providerSubject = subject := by
  have hkey := List.find?_some h
  simp only [Bool.and_eq_true, decide_eq_true_eq] at hkey
  exact ⟨List.mem_of_find?_eq_some h, hkey⟩

/-- What a call leaves: a well-formed store, and a change of its index. -/
structure Stepped (sha256 : Text → Text) (store : CustomerIdentityStore) (op : Op) (r : Bool × CustomerIdentityStore) : Prop where
  wellFormed : WellFormed r.2.stored
  change : Change sha256 store.stored.index op r.1 r.2.stored.index

theorem Stepped.rejected (h : WellFormed store.stored) : Stepped sha256 store op (false, store) :=
  ⟨h, .same fun _ _ _ => rfl⟩

/-- The snapshot with what is known now of an identity and its user. -/
theorem WellFormed.amended (h : WellFormed s) (i : CustomerIdentityRecord) (user : CustomerUserRecord) (input : IdentityInput) :
    WellFormed ((s.amendIdentity i input).amendUser user input) :=
  h.of_index ((index_amendUser user input).trans (index_amendIdentity i input)) rfl rfl

/-- The snapshot with a new user and its subject. -/
def Snapshot.founded (s : Snapshot) (userId : Text) (input : IdentityInput) (now : Text) : Snapshot :=
  { s with
    users := s.users ++ [⟨userId, input.displayName, input.avatarUrl.getD none, now⟩]
    identities := s.identities ++ [input.record userId (trim input.providerSubject) now] }

theorem identity?_none {provider : CustomerIdentityProvider} {subject : Text} (h : s.identity? provider subject = none) :
    ∀ i ∈ s.identities, i.subject ≠ (provider, subject) := by
  intro i hi hsubject
  have hnot := List.find?_eq_none.1 h i hi
  rw [CustomerIdentityRecord.subject, Prod.mk.injEq] at hsubject
  simp [hsubject.1, hsubject.2] at hnot

/-- A user is founded by a subject exactly if there is none of its id. -/
theorem wellFormed_founded {userId : Text} {input : IdentityInput} {now : Text} (h : WellFormed s) (hid : userId ≠ [])
    (hsubject : trim input.providerSubject ≠ []) (hnone : s.identity? input.provider (trim input.providerSubject) = none) :
    WellFormed (s.founded userId input now) ↔ userId ∉ s.users.map (·.userId) := by
  constructor
  · intro hs hmem
    have hnodup := hs.users.1
    simp only [Snapshot.founded, List.map_append, List.map_cons, List.map_nil] at hnodup
    exact (List.nodup_append.1 hnodup).2.2 userId hmem userId (List.mem_singleton_self _) rfl
  · intro hfresh
    refine ⟨h.version, ⟨?_, ?_⟩, ?_, ?_, h.accounts, h.bindings, ?_, ?_⟩
    · simp only [Snapshot.founded, List.map_append, List.map_cons, List.map_nil]
      exact List.nodup_append.2 ⟨h.users.1, List.nodup_singleton _, fun a ha b hb hab => by
        rw [List.mem_singleton.1 hb] at hab
        exact hfresh (hab ▸ ha)⟩
    · simp only [Snapshot.founded, List.map_append, List.mem_append, List.map_cons, List.map_nil, List.mem_singleton, not_or]
      exact ⟨h.users.2, Ne.symm hid⟩
    · intro i hi
      rcases List.mem_append.1 hi with hi | hi
      · exact h.spoken i hi
      · rw [List.mem_singleton.1 hi]
        show trim (trim input.providerSubject) ≠ []
        rw [(tight_trim _).trim_eq]
        exact hsubject
    · simp only [Snapshot.founded, List.map_append, List.map_cons, List.map_nil]
      refine List.nodup_append.2 ⟨h.subjects, List.nodup_singleton _, fun a ha b hb hab => ?_⟩
      obtain ⟨i, hi, rfl⟩ := List.mem_map.1 ha
      rw [List.mem_singleton.1 hb] at hab
      exact identity?_none hnone i hi hab
    · intro i hi
      simp only [Snapshot.founded, List.map_append, List.mem_append, List.map_cons, List.map_nil, List.mem_singleton]
      rcases List.mem_append.1 hi with hi | hi
      · exact Or.inl (h.identified i hi)
      · rw [List.mem_singleton.1 hi]
        exact Or.inr rfl
    · intro o ho
      simp only [Snapshot.founded, List.map_append, List.mem_append]
      exact Or.inl (h.owned o ho)

theorem customerUserId_ne_nil (provider : CustomerIdentityProvider) (subject : Text) :
    customerUserId sha256 provider subject ≠ [] := by
  simp [customerUserId]

/-- **What `resolveOrCreate` does with a subject**: it finds its user, or founds one if there is none of its id. -/
theorem resolveOrCreate_cases (sha256 : Text → Text) (h : WellFormed store.stored) {input : IdentityInput} (now : Text)
    (hsubject : trim input.providerSubject ≠ []) :
    (((store.stored.identity? input.provider (trim input.providerSubject)).isSome = true ∧
        (store.resolveOrCreate sha256 input now).1.isOk = true ∧
        WellFormed (store.resolveOrCreate sha256 input now).2.stored ∧
        (store.resolveOrCreate sha256 input now).2.stored.index = store.stored.index) ∨
      (store.stored.identity? input.provider (trim input.providerSubject) = none ∧
        ownId sha256 input ∉ store.stored.index.users ∧
        (store.resolveOrCreate sha256 input now).1.isOk = true ∧
        (store.resolveOrCreate sha256 input now).2.stored =
          store.stored.founded (ownId sha256 input) input now) ∨
      (store.stored.identity? input.provider (trim input.providerSubject) = none ∧
        ownId sha256 input ∈ store.stored.index.users ∧
        (store.resolveOrCreate sha256 input now).1.isOk = false ∧
        (store.resolveOrCreate sha256 input now).2 = store)) := by
  unfold CustomerIdentityStore.resolveOrCreate
  simp only [if_neg hsubject, reading_eq h]
  cases hidentity : store.stored.identity? input.provider (trim input.providerSubject) with
  | some existing =>
    left
    have howner := h.identified existing (identity?_spec hidentity).1
    cases huser : store.stored.users.find? (·.userId = existing.userId) with
    | none =>
      obtain ⟨user, hmem, hid⟩ := List.mem_map.1 howner
      have hnot := List.find?_eq_none.1 huser user hmem
      simp [hid] at hnot
    | some user =>
      simp only [huser]
      split
      · exact ⟨rfl, principal_isOk howner, h, rfl⟩
      · have hwell := h.amended existing user input
        have hindex := (@index_amendUser (store.stored.amendIdentity existing input) user input).trans
          (index_amendIdentity existing input)
        rcases @save_cases store _ ((store.stored.amendIdentity existing input).amendUser user input)
            (((store.stored.amendIdentity existing input).amendUser user input).principal (existing.amended input)) with
          ⟨-, heq⟩ | ⟨hbad, -⟩
        · rw [heq]
          refine ⟨rfl, principal_isOk ?_, hwell, hindex⟩
          show existing.userId ∈ ((store.stored.amendIdentity existing input).amendUser user input).index.users
          rw [hindex]
          exact howner
        · exact absurd hwell hbad
  | none =>
    right
    have hiff := @wellFormed_founded store.stored (ownId sha256 input) input now h (customerUserId_ne_nil _ _)
      hsubject hidentity
    rcases @save_cases store _
        (store.stored.founded (ownId sha256 input) input now)
        ((store.stored.founded (ownId sha256 input) input now).principal
          (input.record (ownId sha256 input) (trim input.providerSubject) now)) with
      ⟨hwell, heq⟩ | ⟨hbad, e, heq⟩
    · left
      refine ⟨rfl, hiff.1 hwell, ?_, congrArg (·.2.stored) heq⟩
      refine (congrArg (·.1.isOk) heq).trans (principal_isOk ?_)
      simp only [Snapshot.founded, List.map_append, List.mem_append, List.map_cons, List.map_nil]
      exact Or.inr (List.mem_singleton_self _)
    · right
      refine ⟨rfl, ?_, congrArg (·.1.isOk) heq, congrArg (·.2) heq⟩
      by_contra hfresh
      exact hbad (hiff.2 hfresh)

theorem resolveOrCreate_stepped (h : WellFormed store.stored) (input : IdentityInput) (now : Text) :
    Stepped sha256 store (.resolveOrCreate input now) (exec sha256 store (.resolveOrCreate input now)) := by
  by_cases hsubject : trim input.providerSubject = []
  · have hrejected : exec sha256 store (.resolveOrCreate input now) = (false, store) := by
      unfold exec CustomerIdentityStore.resolveOrCreate
      simp only [if_pos hsubject]
      rfl
    rw [hrejected]
    exact .rejected h
  · rcases resolveOrCreate_cases sha256 h now hsubject with ⟨-, -, hwell, hindex⟩ | ⟨hnone, hfresh, hok, hstored⟩ | ⟨-, -, -, hstore⟩
    · refine ⟨hwell, ?_⟩
      show Change sha256 _ _ _ (store.resolveOrCreate sha256 input now).2.stored.index
      rw [hindex]
      exact .same fun _ _ heq => by cases heq
    · have hwell := (@wellFormed_founded _ _ _ now h (customerUserId_ne_nil _ _) hsubject hnone).2 hfresh
      refine ⟨?_, ?_⟩
      · show WellFormed (store.resolveOrCreate sha256 input now).2.stored
        rw [hstored]
        exact hwell
      · show Change sha256 _ _ (store.resolveOrCreate sha256 input now).1.isOk
          (store.resolveOrCreate sha256 input now).2.stored.index
        rw [hok, hstored]
        have hindex : (store.stored.founded (ownId sha256 input) input now).index =
            { store.stored.index with
              users := store.stored.index.users ++ [ownId sha256 input]
              signs := store.stored.index.signs ++ [⟨ownId sha256 input, input.provider, trim input.providerSubject⟩] } := by
          simp only [Snapshot.index, Snapshot.founded, List.map_append, List.map_cons, List.map_nil]
          rfl
        rw [hindex]
        exact .created hfresh
    · refine ⟨?_, ?_⟩
      · show WellFormed (store.resolveOrCreate sha256 input now).2.stored
        rw [hstore]
        exact h
      · show Change sha256 _ _ _ (store.resolveOrCreate sha256 input now).2.stored.index
        rw [hstore]
        exact .same fun _ _ heq => by cases heq

theorem linkIdentity_stepped (h : WellFormed store.stored) (u : Text) (input : IdentityInput) (now : Text) :
    Stepped sha256 store (.linkIdentity u input now) (exec sha256 store (.linkIdentity u input now)) := by
  have hsame : ∀ accepted, Stepped sha256 store (.linkIdentity u input now) (accepted, store) :=
    fun _ => ⟨h, .same fun _ _ heq => by cases heq⟩
  unfold exec CustomerIdentityStore.linkIdentity
  simp only [reading_eq h]
  split
  · exact hsame _
  · next hu =>
    split
    · exact hsame _
    · split
      · next existing _ =>
        split
        · exact hsame _
        · split
          · exact hsame _
          · have hindex := @index_amendIdentity store.stored existing input
            rcases @save_cases store _ (store.stored.amendIdentity existing input) (.ok (existing.amended input)) with
              ⟨hwell, heq⟩ | ⟨-, e, heq⟩
            · rw [heq]
              refine ⟨hwell, ?_⟩
              show Change sha256 _ _ _ (store.stored.amendIdentity existing input).index
              rw [hindex]
              exact .same fun _ _ heq => by cases heq
            · rw [heq]
              exact hsame _
      · split
        · exact hsame _
        · next hfree =>
          let s' : Snapshot := { store.stored with
            identities := store.stored.identities ++ [input.record u (trim input.providerSubject) now] }
          rcases @save_cases store _ s' (.ok (input.record u (trim input.providerSubject) now)) with ⟨hwell, heq⟩ | ⟨-, e, heq⟩
          · rw [heq]
            refine ⟨hwell, ?_⟩
            have hindex : s'.index = { store.stored.index with
                signs := store.stored.index.signs ++ [⟨u, input.provider, trim input.providerSubject⟩] } := by
              simp only [s', Snapshot.index, List.map_append, List.map_cons, List.map_nil]
              rfl
            show Change sha256 _ _ true s'.index
            rw [hindex]
            refine .linked ?_ fun sign hsign hid hprovider => hfree ?_
            · simp only [List.all_eq_true, decide_eq_true_eq, not_forall] at hu
              obtain ⟨user, hmem, hid⟩ := hu
              exact List.mem_map.2 ⟨user, hmem, not_not.1 hid⟩
            · obtain ⟨i, hi, rfl⟩ := List.mem_map.1 hsign
              rw [List.any_eq_true]
              exact ⟨i, hi, by rw [Bool.and_eq_true, decide_eq_true_eq, decide_eq_true_eq]; exact ⟨hid, hprovider⟩⟩
          · rw [heq]
            exact hsame _

theorem unlinkIdentity_stepped (h : WellFormed store.stored) (u : Text) (provider : CustomerIdentityProvider) :
    Stepped sha256 store (.unlinkIdentity u provider) (exec sha256 store (.unlinkIdentity u provider)) := by
  unfold exec CustomerIdentityStore.unlinkIdentity
  simp only [reading_eq h]
  split
  · exact .rejected h
  · split
    · exact .rejected h
    · next remaining hremaining =>
      let s' : Snapshot := { store.stored with
        identities := store.stored.identities.filter fun c => c.userId ≠ u || c.provider ≠ provider }
      rcases @save_cases store _ s' (s'.principal remaining) with ⟨hwell, heq⟩ | ⟨-, e, heq⟩
      · rw [heq]
        refine ⟨hwell, ?_⟩
        have hmem := List.mem_of_find?_eq_some hremaining
        have hkey := List.find?_some hremaining
        simp only [Bool.and_eq_true, decide_eq_true_eq] at hkey
        have hok : (s'.principal remaining).isOk = true := principal_isOk (h.identified remaining hmem)
        have hindex : s'.index = { store.stored.index with
            signs := store.stored.index.signs.filter fun sign => sign.userId ≠ u || sign.provider ≠ provider } := by
          simp only [s', Snapshot.index, List.filter_map]
          rfl
        show Change sha256 _ _ (s'.principal remaining).isOk s'.index
        rw [hok, hindex]
        exact .unlinked ⟨remaining.sign, List.mem_map_of_mem hmem, hkey.1, hkey.2⟩
      · rw [heq]
        exact .rejected h

theorem bindAccount_stepped (h : WellFormed store.stored) (u accountId now : Text) :
    Stepped sha256 store (.bindAccount u accountId now) (exec sha256 store (.bindAccount u accountId now)) := by
  have hsame : ∀ accepted, Stepped sha256 store (.bindAccount u accountId now) (accepted, store) :=
    fun _ => ⟨h, .same fun _ _ heq => by cases heq⟩
  unfold exec CustomerIdentityStore.bindAccount
  simp only [reading_eq h]
  split
  · exact hsame _
  · next hu =>
    split
    · split <;> exact hsame _
    · next hnone =>
      let s' : Snapshot := { store.stored with accountOwners := store.stored.accountOwners ++ [⟨u, accountId, now⟩] }
      rcases @save_cases store _ s' (.ok (⟨u, accountId, now⟩ : CustomerAccountOwnerRecord)) with ⟨hwell, heq⟩ | ⟨-, e, heq⟩
      · rw [heq]
        refine ⟨hwell, ?_⟩
        have hindex : s'.index = { store.stored.index with owners := store.stored.index.owners ++ [(u, accountId)] } := by
          simp only [s', Snapshot.index, List.map_append, List.map_cons, List.map_nil]
        show Change sha256 _ _ true s'.index
        rw [hindex]
        refine .bound ?_ fun owner howner hid => ?_
        · simp only [List.all_eq_true, decide_eq_true_eq, not_forall] at hu
          obtain ⟨user, hmem, hid⟩ := hu
          exact List.mem_map.2 ⟨user, hmem, not_not.1 hid⟩
        · obtain ⟨o, ho, rfl⟩ := List.mem_map.1 howner
          have hnot := List.find?_eq_none.1 hnone o ho
          rw [decide_eq_true_eq] at hnot
          exact hnot hid
      · rw [heq]
        exact hsame _

/-- **A call** keeps the store well-formed and changes its index in one of a few ways. -/
theorem exec_stepped (sha256 : Text → Text) (h : WellFormed store.stored) (op : Op) : Stepped sha256 store op (exec sha256 store op) := by
  cases op with
  | resolveOrCreate input now => exact resolveOrCreate_stepped h input now
  | linkIdentity u input now => exact linkIdentity_stepped h u input now
  | unlinkIdentity u provider => exact unlinkIdentity_stepped h u provider
  | bindAccount u accountId now => exact bindAccount_stepped h u accountId now

/-! ## Explicit links -/

/-- The explicit links behind a call: one that was made and not unlinked since. -/
def linksAfter (links : List Sign) (accepted : Bool) : Op → List Sign
  | .linkIdentity u input _ => if accepted then ⟨u, input.provider, trim input.providerSubject⟩ :: links else links
  | .unlinkIdentity u provider =>
    if accepted then links.filter fun sign => sign.userId ≠ u || sign.provider ≠ provider else links
  | .resolveOrCreate _ _ => links
  | .bindAccount _ _ _ => links

/-- The explicit links behind a run. -/
def links (sha256 : Text → Text) : List Op → CustomerIdentityStore → List Sign → List Sign
  | [], _, l => l
  | op :: ops, store, l => links sha256 ops (exec sha256 store op).2 (linksAfter l (exec sha256 store op).1 op)

/-- Every user has a subject, at most one of each provider, and at most one that was not linked to it. -/
structure Fair (x : Index) (links : List Sign) : Prop where
  known : ∀ sign ∈ x.signs, sign.userId ∈ x.users
  kept : ∀ u ∈ x.users, ∃ sign ∈ x.signs, sign.userId = u
  single : ∀ a ∈ x.signs, ∀ b ∈ x.signs, a.userId = b.userId → a.provider = b.provider → a = b
  founder : ∀ a ∈ x.signs, ∀ b ∈ x.signs, a.userId = b.userId → a ∉ links → b ∉ links → a = b

theorem Fair.change {x y : Index} {l : List Sign} (h : Fair x l) (hc : Change sha256 x op accepted y) :
    Fair y (linksAfter l accepted op) := by
  cases hc with
  | same hop =>
    refine ⟨h.known, h.kept, h.single, fun a ha b hb hid hal hbl => ?_⟩
    cases op with
    | linkIdentity u input now =>
      have hsub : ∀ sign ∈ l, sign ∈ linksAfter l accepted (.linkIdentity u input now) := by
        intro sign hsign
        simp only [linksAfter]
        split
        · exact List.mem_cons_of_mem _ hsign
        · exact hsign
      exact h.founder a ha b hb hid (fun hmem => hal (hsub a hmem)) fun hmem => hbl (hsub b hmem)
    | unlinkIdentity u provider =>
      rw [hop u provider rfl] at hal hbl
      exact h.founder a ha b hb hid hal hbl
    | resolveOrCreate input now => exact h.founder a ha b hb hid hal hbl
    | bindAccount u accountId now => exact h.founder a ha b hb hid hal hbl
  | @created input now hfresh =>
    -- the new user has no other subject
    have hother : ∀ sign ∈ x.signs, sign.userId ≠ ownId sha256 input := fun sign hsign hid => hfresh (hid ▸ h.known sign hsign)
    have hpair : ∀ a b : Sign, a.userId = b.userId → a ∈ x.signs ++ [⟨ownId sha256 input, input.provider, trim input.providerSubject⟩] →
        b ∈ x.signs ++ [⟨ownId sha256 input, input.provider, trim input.providerSubject⟩] →
        (a ∈ x.signs ∧ b ∈ x.signs) ∨ a = b := by
      intro a b hid ha hb
      rcases List.mem_append.1 ha with ha | ha
      · rcases List.mem_append.1 hb with hb | hb
        · exact Or.inl ⟨ha, hb⟩
        · rw [List.mem_singleton.1 hb] at hid
          exact absurd hid (hother a ha)
      · rcases List.mem_append.1 hb with hb | hb
        · rw [List.mem_singleton.1 ha] at hid
          exact absurd hid.symm (hother b hb)
        · exact Or.inr ((List.mem_singleton.1 ha).trans (List.mem_singleton.1 hb).symm)
    refine ⟨fun sign hsign => ?_, fun u hu => ?_, fun a ha b hb hid hprovider => ?_, fun a ha b hb hid hal hbl => ?_⟩
    · rcases List.mem_append.1 hsign with hsign | hsign
      · exact List.mem_append_left _ (h.known sign hsign)
      · rw [List.mem_singleton.1 hsign]
        exact List.mem_append_right _ (List.mem_singleton_self _)
    · rcases List.mem_append.1 hu with hu | hu
      · obtain ⟨sign, hsign, hid⟩ := h.kept u hu
        exact ⟨sign, List.mem_append_left _ hsign, hid⟩
      · exact ⟨_, List.mem_append_right _ (List.mem_singleton_self _), (List.mem_singleton.1 hu).symm⟩
    · rcases hpair a b hid ha hb with ⟨ha, hb⟩ | heq
      · exact h.single a ha b hb hid hprovider
      · exact heq
    · rcases hpair a b hid ha hb with ⟨ha, hb⟩ | heq
      · exact h.founder a ha b hb hid hal hbl
      · exact heq
  | @linked u input now hu hfree =>
    have hlink : linksAfter l true (.linkIdentity u input now) = ⟨u, input.provider, trim input.providerSubject⟩ :: l := rfl
    rw [hlink]
    refine ⟨fun sign hsign => ?_, fun u hu => ?_, fun a ha b hb hid hprovider => ?_, fun a ha b hb hid hal hbl => ?_⟩
    · rcases List.mem_append.1 hsign with hsign | hsign
      · exact h.known sign hsign
      · rw [List.mem_singleton.1 hsign]
        exact hu
    · obtain ⟨sign, hsign, hid⟩ := h.kept u hu
      exact ⟨sign, List.mem_append_left _ hsign, hid⟩
    · rcases List.mem_append.1 ha with ha | ha
      · rcases List.mem_append.1 hb with hb | hb
        · exact h.single a ha b hb hid hprovider
        · rw [List.mem_singleton.1 hb] at hid hprovider
          exact absurd hprovider (hfree a ha hid)
      · rcases List.mem_append.1 hb with hb | hb
        · rw [List.mem_singleton.1 ha] at hid hprovider
          exact absurd hprovider.symm (hfree b hb hid.symm)
        · exact (List.mem_singleton.1 ha).trans (List.mem_singleton.1 hb).symm
    · rw [List.mem_cons, not_or] at hal hbl
      have ha' := (List.mem_append.1 ha).resolve_right fun hmem => hal.1 (List.mem_singleton.1 hmem)
      have hb' := (List.mem_append.1 hb).resolve_right fun hmem => hbl.1 (List.mem_singleton.1 hmem)
      exact h.founder a ha' b hb' hid hal.2 hbl.2
  | @unlinked u provider hother =>
    have hlink : linksAfter l true (.unlinkIdentity u provider) =
        l.filter fun sign => sign.userId ≠ u || sign.provider ≠ provider := rfl
    rw [hlink]
    refine ⟨fun sign hsign => h.known sign (List.mem_of_mem_filter hsign), fun v hv => ?_,
      fun a ha b hb => h.single a (List.mem_of_mem_filter ha) b (List.mem_of_mem_filter hb), fun a ha b hb hid hal hbl => ?_⟩
    · by_cases hvu : v = u
      · obtain ⟨sign, hsign, hid, hprovider⟩ := hother
        exact ⟨sign, List.mem_filter.2 ⟨hsign, by simp [hprovider]⟩, hid.trans hvu.symm⟩
      · obtain ⟨sign, hsign, hid⟩ := h.kept v hv
        exact ⟨sign, List.mem_filter.2 ⟨hsign, by simp [hid, hvu]⟩, hid⟩
    · rw [List.mem_filter] at ha hb
      refine h.founder a ha.1 b hb.1 hid (fun hmem => hal ?_) fun hmem => hbl ?_
      · exact List.mem_filter.2 ⟨hmem, ha.2⟩
      · exact List.mem_filter.2 ⟨hmem, hb.2⟩
  | bound => exact ⟨h.known, h.kept, h.single, h.founder⟩

/-! ## Runs -/

/-- A subject signs in as a user. -/
def SignsIn (store : CustomerIdentityStore) (provider : CustomerIdentityProvider) (subject u : Text) : Prop :=
  ∃ principal, store.resolve provider subject = .ok (some principal) ∧ principal.userId = u

theorem principal_userId {i : CustomerIdentityRecord} {principal : CustomerPrincipal} (h : s.principal i = .ok principal) :
    principal.userId = i.userId := by
  unfold Snapshot.principal at h
  split at h
  · cases h
  · next user huser =>
    have hid := List.find?_some huser
    rw [decide_eq_true_eq] at hid
    rw [← Except.ok.inj h]
    exact hid

theorem signsIn_iff (h : WellFormed store.stored) (provider : CustomerIdentityProvider) (subject u : Text) :
    SignsIn store provider subject u ↔ ⟨u, provider, subject⟩ ∈ store.stored.index.signs := by
  unfold SignsIn CustomerIdentityStore.resolve
  rw [load_eq h]
  simp only [bind, Except.bind]
  constructor
  · rintro ⟨principal, hresolve, rfl⟩
    split at hresolve
    · cases hresolve
    · next i hi =>
      obtain ⟨hmem, rfl, rfl⟩ := identity?_spec hi
      obtain ⟨found, hfound, heq⟩ := map_ok.1 hresolve
      obtain rfl := Option.some.inj heq
      rw [principal_userId hfound]
      exact List.mem_map_of_mem hmem
  · intro hmem
    obtain ⟨i, hi, hsign⟩ := List.mem_map.1 hmem
    obtain ⟨rfl, rfl, rfl⟩ := Sign.mk.inj hsign
    cases hfind : store.stored.identity? i.provider i.providerSubject with
    | none => exact absurd rfl (identity?_none hfind i hi)
    | some j =>
      obtain ⟨hj, hprovider, hsubject⟩ := identity?_spec hfind
      have hji : j = i := List.inj_on_of_nodup_map h.subjects hj hi (Prod.ext hprovider hsubject)
      subst hji
      have hok := principal_isOk (h.identified j hj)
      cases hprincipal : store.stored.principal j with
      | error e => rw [hprincipal] at hok; cases hok
      | ok principal =>
        refine ⟨principal, ?_, principal_userId hprincipal⟩
        show (store.stored.principal j).map some = _
        rw [hprincipal]
        rfl

theorem ownerForAccount_iff (h : WellFormed store.stored) (accountId u : Text) :
    store.ownerForAccount accountId = .ok (some u) ↔ (u, accountId) ∈ store.stored.index.owners := by
  unfold CustomerIdentityStore.ownerForAccount
  rw [load_eq h]
  simp only [Except.map, Except.ok.injEq, Option.map_eq_some_iff]
  constructor
  · rintro ⟨o, ho, rfl⟩
    have hid := List.find?_some ho
    rw [decide_eq_true_eq] at hid
    exact List.mem_map.2 ⟨o, List.mem_of_find?_eq_some ho, Prod.ext rfl hid⟩
  · intro hmem
    obtain ⟨o, ho, heq⟩ := List.mem_map.1 hmem
    obtain ⟨rfl, rfl⟩ := Prod.mk.inj heq
    cases hfind : store.stored.accountOwners.find? (·.accountId = o.accountId) with
    | none =>
      have hnot := List.find?_eq_none.1 hfind o ho
      simp at hnot
    | some o' =>
      have hid := List.find?_some hfind
      rw [decide_eq_true_eq] at hid
      exact ⟨o', rfl, congrArg _ (List.inj_on_of_nodup_map h.accounts.1 (List.mem_of_find?_eq_some hfind) ho hid)⟩

theorem run_append (first rest : List Op) (store : CustomerIdentityStore) :
    run sha256 (first ++ rest) store = run sha256 rest (run sha256 first store) := by
  induction first generalizing store with
  | nil => rfl
  | cons op first ih => exact ih _

theorem run_wellFormed (sha256 : Text → Text) (ops : List Op) (h : WellFormed store.stored) : WellFormed (run sha256 ops store).stored := by
  induction ops generalizing store with
  | nil => exact h
  | cons op ops ih => exact ih (exec_stepped sha256 h op).wellFormed

theorem run_fair (sha256 : Text → Text) (ops : List Op) {l : List Sign} (h : WellFormed store.stored) (hfair : Fair store.stored.index l) :
    Fair (run sha256 ops store).stored.index (links sha256 ops store l) := by
  induction ops generalizing store l with
  | nil => exact hfair
  | cons op ops ih =>
    obtain ⟨hwell, hchange⟩ := exec_stepped sha256 h op
    exact ih hwell (hfair.change hchange)

/-- Users stay, and accounts keep their owners. -/
theorem Change.mono {x y : Index} (hc : Change sha256 x op accepted y) : (∀ u ∈ x.users, u ∈ y.users) ∧ ∀ o ∈ x.owners, o ∈ y.owners := by
  cases hc with
  | created => exact ⟨fun u hu => List.mem_append_left _ hu, fun _ h => h⟩
  | bound => exact ⟨fun _ h => h, fun o ho => List.mem_append_left _ ho⟩
  | _ => exact ⟨fun _ h => h, fun _ h => h⟩

theorem run_mono (sha256 : Text → Text) (ops : List Op) (h : WellFormed store.stored) :
    (∀ u ∈ store.stored.index.users, u ∈ (run sha256 ops store).stored.index.users) ∧
      ∀ o ∈ store.stored.index.owners, o ∈ (run sha256 ops store).stored.index.owners := by
  induction ops generalizing store with
  | nil => exact ⟨fun _ h => h, fun _ h => h⟩
  | cons op ops ih =>
    obtain ⟨hwell, hchange⟩ := exec_stepped sha256 h op
    obtain ⟨husers, howners⟩ := ih hwell
    exact ⟨fun u hu => husers u (hchange.mono.1 u hu), fun o ho => howners o (hchange.mono.2 o ho)⟩

/-- A subject comes to a user that there is only by a link. -/
theorem Change.stays_out {x y : Index} {sign : Sign} (hc : Change sha256 x op accepted y) (hu : sign.userId ∈ x.users)
    (hout : sign ∉ x.signs) (hop : ∀ input now, op = .linkIdentity sign.userId input now → input.provider = sign.provider →
      trim input.providerSubject ≠ sign.providerSubject) : sign ∉ y.signs := by
  cases hc with
  | same => exact hout
  | created hfresh =>
    intro hmem
    rcases List.mem_append.1 hmem with hmem | hmem
    · exact hout hmem
    · rw [List.mem_singleton.1 hmem] at hu
      exact hfresh hu
  | linked =>
    intro hmem
    rcases List.mem_append.1 hmem with hmem | hmem
    · exact hout hmem
    · rw [List.mem_singleton.1 hmem] at hop
      exact hop _ _ rfl rfl rfl
  | unlinked => exact fun hmem => hout (List.mem_of_mem_filter hmem)
  | bound => exact hout

theorem run_stays_out (ops : List Op) {sign : Sign} (h : WellFormed store.stored) (hu : sign.userId ∈ store.stored.index.users)
    (hout : sign ∉ store.stored.index.signs) (hops : ∀ input now, .linkIdentity sign.userId input now ∈ ops →
      input.provider = sign.provider → trim input.providerSubject ≠ sign.providerSubject) :
    sign ∉ (run sha256 ops store).stored.index.signs := by
  induction ops generalizing store with
  | nil => exact hout
  | cons op ops ih =>
    obtain ⟨hwell, hchange⟩ := exec_stepped sha256 h op
    refine ih hwell (hchange.mono.1 _ hu) (hchange.stays_out hu hout fun input now heq => ?_) fun input now hmem =>
      hops input now (List.mem_cons_of_mem _ hmem)
    exact hops input now (heq ▸ List.mem_cons_self)

/-- **The identity store over any calls**, from an empty one: it stays well-formed and readable, users keep an identity and
accounts their owner, and two subjects share a user only by an explicit link. A subject can sign in exactly if it is linked
or if there is no user of the id that it founds. -/
theorem identities_consistent (sha256 : Text → Text) (path : Text) (ops : List Op) :
    let empty : CustomerIdentityStore := { path := path }
    let store := run sha256 ops empty
    (∃ s, store.load = .ok s ∧ assertProviderNeutralCustomerSnapshot s = .ok () ∧
      (∀ i ∈ s.identities, ∀ j ∈ s.identities, i.userId = j.userId → i.provider = j.provider → i = j) ∧
      ∀ first rest, ops = first ++ rest → ∀ user ∈ (run sha256 first empty).stored.users,
        ∃ i ∈ s.identities, i.userId = user.userId) ∧
    (∀ first rest accountId u, ops = first ++ rest → (run sha256 first empty).ownerForAccount accountId = .ok (some u) →
      store.ownerForAccount accountId = .ok (some u)) ∧
    (∀ input now, trim input.providerSubject ≠ [] →
      ((store.resolveOrCreate sha256 input now).1.isOk = true ↔
        (∃ u, SignsIn store input.provider (trim input.providerSubject) u) ∨
          ∀ user ∈ store.stored.users, user.userId ≠ customerUserId sha256 input.provider (trim input.providerSubject))) ∧
    (∀ provider subject provider' subject' u, SignsIn store provider subject u → SignsIn store provider' subject' u →
      (provider, subject) ≠ (provider', subject') →
      ⟨u, provider, subject⟩ ∈ links sha256 ops empty [] ∨ ⟨u, provider', subject'⟩ ∈ links sha256 ops empty []) ∧
    ∀ first rest u provider subject, ops = first ++ .unlinkIdentity u provider :: rest →
      (exec sha256 (run sha256 first empty) (.unlinkIdentity u provider)).1 = true →
      SignsIn (run sha256 first empty) provider subject u →
      (∀ input now, .linkIdentity u input now ∈ rest → input.provider = provider → trim input.providerSubject ≠ subject) →
      ¬SignsIn store provider subject u := by
  intro empty store
  have hempty : WellFormed empty.stored := wellFormed_empty
  have hwell : WellFormed store.stored := run_wellFormed sha256 ops hempty
  have hfair : Fair store.stored.index (links sha256 ops empty []) :=
    run_fair sha256 ops hempty ⟨fun _ h => (by cases h), fun _ h => (by cases h), fun _ h => (by cases h), fun _ h => (by cases h)⟩
  refine ⟨⟨store.stored, load_eq hwell, assert_iff.2 hwell, ?_, ?_⟩, ?_, ?_, ?_, ?_⟩
  · intro i hi j hj hid hprovider
    have hsign := hfair.single i.sign (List.mem_map_of_mem hi) j.sign (List.mem_map_of_mem hj) hid hprovider
    exact List.inj_on_of_nodup_map hwell.subjects hi hj (Prod.ext hprovider (congrArg Sign.providerSubject hsign))
  · rintro first rest rfl user huser
    have hmem := (run_mono sha256 rest (run_wellFormed sha256 first hempty)).1 user.userId (List.mem_map_of_mem huser)
    rw [← run_append] at hmem
    obtain ⟨sign, hsign, hid⟩ := hfair.kept user.userId hmem
    obtain ⟨i, hi, rfl⟩ := List.mem_map.1 hsign
    exact ⟨i, hi, hid⟩
  · rintro first rest accountId u rfl howner
    have hfirst := run_wellFormed sha256 first hempty
    rw [ownerForAccount_iff hfirst] at howner
    have hmem := (run_mono sha256 rest hfirst).2 _ howner
    rw [← run_append] at hmem
    exact (ownerForAccount_iff hwell accountId u).2 hmem
  · intro input now hsubject
    have hsigns : (∃ u, SignsIn store input.provider (trim input.providerSubject) u) ↔
        (store.stored.identity? input.provider (trim input.providerSubject)).isSome = true := by
      simp only [signsIn_iff hwell]
      constructor
      · rintro ⟨u, hmem⟩
        obtain ⟨i, hi, hsign⟩ := List.mem_map.1 hmem
        by_contra hnone
        rw [Option.not_isSome_iff_eq_none] at hnone
        exact identity?_none hnone i hi (Prod.ext (congrArg Sign.provider hsign) (congrArg Sign.providerSubject hsign))
      · intro hsome
        obtain ⟨i, hi⟩ := Option.isSome_iff_exists.1 hsome
        obtain ⟨hmem, hprovider, htext⟩ := identity?_spec hi
        exact ⟨i.userId, List.mem_map.2 ⟨i, hmem, by rw [← htext, ← hprovider]; rfl⟩⟩
    have husers : (∀ user ∈ store.stored.users, user.userId ≠ ownId sha256 input) ↔ ownId sha256 input ∉ store.stored.index.users := by
      show _ ↔ ownId sha256 input ∉ store.stored.users.map (·.userId)
      simp only [List.mem_map, not_exists, not_and, ne_eq]
    rw [hsigns]
    refine Iff.trans ?_ (or_congr_right husers.symm)
    rcases resolveOrCreate_cases sha256 hwell now hsubject with ⟨hsome, hok, -⟩ | ⟨-, hfresh, hok, -⟩ | ⟨hnone, hold, hok, -⟩
    · exact iff_of_true hok (Or.inl hsome)
    · exact iff_of_true hok (Or.inr hfresh)
    · refine iff_of_false (fun h => ?_) ?_
      · rw [hok] at h
        cases h
      · rw [hnone]
        rintro (h | h)
        · cases h
        · exact h hold
  · intro provider subject provider' subject' u ha hb hne
    rw [signsIn_iff hwell] at ha hb
    by_contra hlinks
    rw [not_or] at hlinks
    have heq := hfair.founder _ ha _ hb rfl hlinks.1 hlinks.2
    exact hne (Prod.ext (congrArg Sign.provider heq) (congrArg Sign.providerSubject heq))
  · intro first rest u provider subject hops haccepted hin hlater
    have hfirst := run_wellFormed sha256 first hempty
    rw [signsIn_iff hfirst] at hin
    rw [signsIn_iff hwell]
    have hstore : store = run sha256 rest (exec sha256 (run sha256 first empty) (.unlinkIdentity u provider)).2 := by
      show run sha256 ops empty = _
      rw [hops, run_append]
      rfl
    obtain ⟨hwell', hchange⟩ := exec_stepped sha256 hfirst (.unlinkIdentity u provider)
    have hknown := (@run_fair empty sha256 first [] hempty ⟨fun _ h => (by cases h), fun _ h => (by cases h),
      fun _ h => (by cases h), fun _ h => (by cases h)⟩).known _ hin
    rw [hstore]
    refine @run_stays_out sha256 _ rest ⟨u, provider, subject⟩ hwell' (hchange.mono.1 u hknown) ?_ hlater
    generalize exec sha256 (run sha256 first empty) (.unlinkIdentity u provider) = r at haccepted hchange
    obtain ⟨accepted, after⟩ := r
    simp only at haccepted hchange ⊢
    subst haccepted
    generalize after.stored.index = y at hchange
    cases hchange with
    | same hop => exact absurd (hop u provider rfl) (by decide)
    | unlinked => simp [List.mem_filter]

/-- The hash of one text. -/
def oneHash (text : Text) : Text :=
  if text = "github:42".toList then "de71e247475d7d9e09413c4d6a7cb64743ccdb2ad95469f6fa9c4e865bcd7945".toList else text

def octocat : IdentityInput := { provider := .github, providerSubject := "42".toList, displayName := "octocat".toList }

def octocatId : Text := "usr_de71e247475d7d9e09413c4d".toList

/-- A user is founded with GitHub, linked to Google, and unlinked from GitHub. -/
def founderUnlinked : List Op :=
  [.resolveOrCreate octocat "t1".toList,
    .linkIdentity octocatId { provider := .google, providerSubject := "g-42".toList } "t2".toList, .unlinkIdentity octocatId .github]

/-- The founder of a user that was unlinked from it can not sign in any more. -/
theorem founder_locked_out :
    ((run oneHash founderUnlinked { path := [] }).resolveOrCreate oneHash octocat "t3".toList).1.isOk = false ∧
      trim octocat.providerSubject ≠ [] := by
  decide +kernel

theorem founder_unlinked_for_good :
    ¬SignsIn (run oneHash founderUnlinked { path := [] }) .github "42".toList octocatId := by
  have hin : SignsIn (run oneHash (founderUnlinked.take 2) { path := [] }) .github "42".toList octocatId := by
    have hempty : WellFormed ({ path := [] } : CustomerIdentityStore).stored := wellFormed_empty
    rw [signsIn_iff (run_wellFormed oneHash _ hempty)]
    decide +kernel
  exact (identities_consistent oneHash [] founderUnlinked).2.2.2.2 (founderUnlinked.take 2) [] octocatId .github "42".toList
    (by rfl) (by decide +kernel) hin fun _ _ hmem => by cases hmem

end Zenod.Customers
