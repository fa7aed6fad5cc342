/-
The ledger of held publications (`callisthenesObservationLedger.ts`): actions
that wait for an approval, the receipts of those that were published, and the
counts of a tenant. Every call is one transaction of one connection, so the
calls of all instances on a database happen one after the other; a call that
throws rolls back.
-/
import Zenod.Evidence.Log
import Zenod.Lib.Table
import Zenod.Lib.Text

namespace Zenod.Publication

open Keyed Text

inductive HeldActionStatus | pending | dispatching | deferred | sent | unknown | expired
deriving DecidableEq

/-- A row of `calli_actions`; times are texts. -/
structure ActionRow where
  tenantId : Text
  id : Text
  text : Text
  status : HeldActionStatus
  createdAt : Text
  expiresAt : Text
  sentAt : Option Text := none
  unknownAt : Option Text := none
  unknownReason : Option Text := none
  dispatchOwner : Option Text := none
  dispatchStartedAt : Option Text := none
  leaseUntil : Option Text := none
  retryAt : Option Text := none
deriving DecidableEq

/-- The statuses of `calli_one_active_text_v2`. -/
def ActionRow.isActive (r : ActionRow) : Bool :=
  r.status = .pending || r.status = .dispatching || r.status = .deferred || r.status = .unknown

/-- The columns that the statements find a row by. -/
def ActionRow.is (r : ActionRow) (tenantId id : Text) : Bool := r.tenantId = tenantId && r.id = id

def ActionRow.isActiveText (r : ActionRow) (tenantId text : Text) : Bool :=
  r.tenantId = tenantId && r.text = text && r.isActive

instance : Keyed ActionRow where
  clash a b := a.is b.tenantId b.id || (a.isActiveText b.tenantId b.text && b.isActive)
  clash_symm a b := by
    rw [Bool.eq_iff_iff]
    simp only [ActionRow.is, ActionRow.isActiveText, Bool.or_eq_true, Bool.and_eq_true, decide_eq_true_eq]
    constructor <;> (rintro (⟨ht, hid⟩ | ⟨⟨⟨ht, htext⟩, ha⟩, hb⟩)) <;> simp_all

/-- A row of `calli_receipts`. -/
structure ReceiptRow where
  tenantId : Text
  actionId : Text
  id : Text
  text : Text
  url : Text
  createdAt : Text
deriving DecidableEq

instance : Keyed ReceiptRow where
  clash a b := (a.tenantId, a.actionId) == (b.tenantId, b.actionId) || (a.tenantId, a.url) == (b.tenantId, b.url)
  clash_symm a b := by rw [BEq.comm, @BEq.comm _ _ _ (a.tenantId, a.url)]

/-- A row of `calli_usage`. -/
structure UsageRow where
  tenantId : Text
  calls : Nat := 0
  sends : Nat := 0
  rejectedDrafts : Nat := 0
  throttled : Nat := 0
deriving DecidableEq

instance : Keyed UsageRow where
  clash a b := a.tenantId == b.tenantId
  clash_symm _ _ := BEq.comm

structure LedgerDb where
  actions : Table ActionRow := .empty
  receipts : Table ReceiptRow := .empty
  usage : Table UsageRow := .empty
deriving DecidableEq

structure ObservedDraft where
  id : Text
  text : Text
  status : HeldActionStatus
  createdAt : Text
  expiresAt : Text
  sentAt : Option Text := none
  unknownAt : Option Text := none
  unknownReason : Option Text := none
  dispatchStartedAt : Option Text := none
  retryAt : Option Text := none
deriving DecidableEq

structure ObservedReceipt where
  id : Text
  draftId : Text
  text : Text
  url : Text
  createdAt : Text
deriving DecidableEq

structure HeldActionApproval where
  actionId : Option Text := none
  text : Text

inductive PublicationClaim
  | claimed (action : ObservedDraft) (owner : Text)
  | dispatching (action : ObservedDraft)
  | sent (action : ObservedDraft) (receipt : ObservedReceipt)
  | unknown (action : ObservedDraft)
  | deferred (action : ObservedDraft)
  | missing
deriving DecidableEq

structure Options where
  pendingTtlMs : Int := 24 * 60 * 60 * 1000
  dispatchLeaseMs : Int := 30000

inductive LedgerError | invalidTime | notOwned | constraint | noRow
deriving DecidableEq

def LedgerError.message : LedgerError → Text
  | .invalidTime => "Invalid time value".toList
  | .notOwned => "publication claim is no longer owned".toList
  | .constraint => "UNIQUE constraint failed".toList
  | .noRow => "Cannot read properties of null".toList

/-! ## Times -/

/-- A `Date`: its time in milliseconds, none for an invalid one. -/
abbrev Date := Option Int

/-- `new Date(date.getTime() + ms)`. -/
def Date.plus (date : Date) (ms : Int) : Date :=
  date.bind fun time =>
    if -8640000000000000 ≤ time + ms ∧ time + ms ≤ 8640000000000000 then some (time + ms) else none

/-- Year, month and day of a day counted from 1970-01-01, in eras of 400 years that begin in March. -/
def civil (days : Int) : Int × Nat × Nat :=
  let shifted := days + 719468
  let era := shifted / 146097
  let ofEra := (shifted % 146097).toNat
  let year := (ofEra - ofEra / 1460 + ofEra / 36524 - ofEra / 146096) / 365
  let ofYear := ofEra - (365 * year + year / 4 - year / 100)
  let march := (5 * ofYear + 2) / 153
  let month := if march < 10 then march + 3 else march - 9
  (year + era * 400 + (if month ≤ 2 then 1 else 0), month, ofYear - (153 * march + 2) / 5 + 1)

/-- `date.toISOString()`. -/
def toISOString : Date → Except LedgerError Text
  | none => .error .invalidTime
  | some time =>
    let ymd := civil (time / 86400000)
    let ms := (time % 86400000).toNat
    .ok (Evidence.isoYear ymd.1 ++ '-' :: Evidence.padStart 2 ymd.2.1 ++ '-' :: Evidence.padStart 2 ymd.2.2 ++
      'T' :: Evidence.padStart 2 (ms / 3600000) ++ ':' :: Evidence.padStart 2 (ms / 60000 % 60) ++
      ':' :: Evidence.padStart 2 (ms / 1000 % 60) ++ '.' :: Evidence.padStart 3 (ms % 1000) ++ ['Z'])

example : toISOString (some 1767225599999) = .ok "2025-12-31T23:59:59.999Z".toList := by decide +kernel

/-! ## Rows -/

/-- An optional column that is left out when it is empty. -/
def shown (t : Option Text) : Option Text := t.filter (· ≠ [])

def actionFromRow (row : ActionRow) : ObservedDraft where
  id := row.id
  text := row.text
  status := row.status
  createdAt := row.createdAt
  expiresAt := row.expiresAt
  sentAt := shown row.sentAt
  unknownAt := shown row.unknownAt
  unknownReason := shown row.unknownReason
  dispatchStartedAt := shown row.dispatchStartedAt
  retryAt := shown row.retryAt

def receiptFromRow (row : ReceiptRow) : ObservedReceipt where
  id := row.id
  draftId := row.actionId
  text := row.text
  url := row.url
  createdAt := row.createdAt

theorem clash_of_active {r r' s : ActionRow} (ht : r'.tenantId = r.tenantId) (hid : r'.id = r.id) (htext : r'.text = r.text)
    (hactive : r'.isActive = true → r.isActive = true) (h : clash r' s = true) : clash r s = true := by
  have hcases : r'.is s.tenantId s.id = true ∨ (r'.isActiveText s.tenantId s.text = true ∧ s.isActive = true) := by
    simpa only [clash, Bool.or_eq_true, Bool.and_eq_true] using h
  show (r.is s.tenantId s.id || (r.isActiveText s.tenantId s.text && s.isActive)) = true
  rw [Bool.or_eq_true, Bool.and_eq_true]
  unfold ActionRow.is ActionRow.isActiveText at *
  simp only [Bool.and_eq_true, decide_eq_true_eq, ht, hid, htext] at hcases ⊢
  rcases hcases with h | ⟨⟨h, ha⟩, hs⟩
  · exact Or.inl h
  · exact Or.inr ⟨⟨h, hactive ha⟩, hs⟩

namespace ActionRow

/-- The row under another status; what else a statement sets is set beside it. -/
def lapsed (r : ActionRow) (now : Text) : ActionRow :=
  { r with
    status := .unknown, unknownAt := some now
    unknownReason := some "dispatch lease expired before a verified receipt".toList
    dispatchOwner := none, leaseUntil := none }

def resumed (r : ActionRow) : ActionRow := { r with status := .pending, retryAt := none, unknownReason := none }

def expired (r : ActionRow) : ActionRow := { r with status := .expired }

def claimed (r : ActionRow) (owner startedAt leaseUntil : Text) : ActionRow :=
  { r with
    status := .dispatching, dispatchOwner := some owner, dispatchStartedAt := some startedAt
    leaseUntil := some leaseUntil }

def receipted (r : ActionRow) (now : Text) : ActionRow :=
  { r with status := .sent, sentAt := some now, dispatchOwner := none, leaseUntil := none }

def doubted (r : ActionRow) (now reason : Text) : ActionRow :=
  { r with
    status := .unknown, unknownAt := some now, unknownReason := some reason, dispatchOwner := none, leaseUntil := none }

def deferred (r : ActionRow) (reason retryAt : Text) : ActionRow :=
  { r with
    status := .deferred, unknownReason := some reason, retryAt := some retryAt, dispatchOwner := none
    leaseUntil := none }

def reconciled (r : ActionRow) (now : Text) : ActionRow :=
  { r with status := .sent, sentAt := some now, unknownAt := none, unknownReason := none }

/-- The row is dispatched under this claim. -/
def isOwned (r : ActionRow) (tenantId id owner : Text) : Bool :=
  r.is tenantId id && r.status = .dispatching && r.dispatchOwner = some owner

end ActionRow

namespace LedgerDb

variable (db : LedgerDb)

def actionRow (tenantId actionId : Text) : Option ActionRow := db.actions.rows.find? (·.is tenantId actionId)

def receiptRow (tenantId actionId : Text) : Option ReceiptRow :=
  db.receipts.rows.find? fun r => r.tenantId = tenantId && r.actionId = actionId

/-- `ensureUsage`, and an update of the tenant's counts behind it. -/
def countUp (tenantId : Text) (f : UsageRow → UsageRow) (hf : ∀ r, (f r).tenantId = r.tenantId) : LedgerDb :=
  { db with
    usage := ((db.usage.insert? { tenantId := tenantId }).getD db.usage).update (·.tenantId = tenantId) f
      fun r s => congrArg (· == s.tenantId) (hf r) }

/-- What an UPDATE of actions does to the rows of its WHERE clause: the constrained columns stay, and no row becomes
active. -/
structure Retains (p : ActionRow → Bool) (f : ActionRow → ActionRow) : Prop where
  tenantId : ∀ r, (f r).tenantId = r.tenantId
  id : ∀ r, (f r).id = r.id
  text : ∀ r, (f r).text = r.text
  active : ∀ r, p r = true → (f r).isActive = true → r.isActive = true

def reviseActions (p : ActionRow → Bool) (f : ActionRow → ActionRow) (hf : Retains p f) : LedgerDb :=
  { db with
    actions := db.actions.revise p f fun r _ hp =>
      clash_of_active (hf.tenantId r) (hf.id r) (hf.text r) (hf.active r hp) }

/-- An update of dispatched, deferred, pending or unknown rows, all of them active. -/
theorem retains_of_active {p : ActionRow → Bool} {f : ActionRow → ActionRow} (htenant : ∀ r, (f r).tenantId = r.tenantId)
    (hid : ∀ r, (f r).id = r.id) (htext : ∀ r, (f r).text = r.text) (hp : ∀ r, p r = true → r.isActive = true) :
    Retains p f := ⟨htenant, hid, htext, fun r h _ => hp r h⟩

theorem isActive_of_status {r : ActionRow} {status : HeldActionStatus} (h : r.status = status)
    (hstatus : status ≠ .sent ∧ status ≠ .expired) : r.isActive = true := by
  unfold ActionRow.isActive
  cases hs : r.status <;> simp_all

/-! ## Transactions -/

/-- A dispatch lease that has expired leaves the action unknown. -/
def recoverLeases (tenantId now : Text) : LedgerDb :=
  db.reviseActions (fun r => r.tenantId = tenantId && r.status = .dispatching && r.leaseUntil.any (· ≤ now))
    (·.lapsed now) <| retains_of_active (fun _ => rfl) (fun _ => rfl) (fun _ => rfl) fun r h =>
      @isActive_of_status _ .dispatching (by simp_all) (by decide)

def resumeDeferred (tenantId now : Text) : LedgerDb :=
  db.reviseActions (fun r => r.tenantId = tenantId && r.status = .deferred && r.retryAt.any (· ≤ now))
    (·.resumed) <| retains_of_active (fun _ => rfl) (fun _ => rfl) (fun _ => rfl) fun r h =>
      @isActive_of_status _ .deferred (by simp_all) (by decide)

def expirePending (tenantId now : Text) : LedgerDb :=
  db.reviseActions (fun r => r.tenantId = tenantId && r.status = .pending && r.expiresAt ≤ now)
    (·.expired) <| retains_of_active (fun _ => rfl) (fun _ => rfl) (fun _ => rfl) fun r h =>
      @isActive_of_status _ .pending (by simp_all) (by decide)

def expireAndRecover (tenantId now : Text) : LedgerDb :=
  ((db.recoverLeases tenantId now).resumeDeferred tenantId now).expirePending tenantId now

variable (contentId : Text → Text → Text)

/-- `resolveActionRow`; `contentId` is `observedContentId`. -/
def resolveActionRow (tenantId : Text) (approval : HeldActionApproval) : Option ActionRow :=
  match shown approval.actionId with
  | some actionId =>
    match db.actionRow tenantId actionId with
    | none => none
    | some row =>
      if row.text = approval.text then some row
      else if row.text = [] ∧ row.id = contentId tenantId approval.text ∧ (db.receiptRow tenantId row.id).isSome then some row
      else none
  | none =>
    match db.actions.rows.filter (·.isActiveText tenantId approval.text) with
    | [row] => some row
    | _ :: _ :: _ => none
    | [] =>
      let legacy := (db.actionRow tenantId (contentId tenantId approval.text)).filter fun r =>
        r.text = [] && r.status = .sent && (db.receiptRow tenantId r.id).isSome
      match legacy with
      | some row => some row
      | none =>
        match db.actions.rows.filter fun r => r.tenantId = tenantId && r.text = approval.text && r.status = .sent with
        | [row] => some row
        | _ => none

def publicationStateWithoutTransaction (tenantId : Text) (row : ActionRow) : PublicationClaim :=
  match row.status with
  | .sent =>
    match db.receiptRow tenantId row.id with
    | some receipt => .sent (actionFromRow row) (receiptFromRow receipt)
    | none => .unknown (actionFromRow row)
  | .dispatching => .dispatching (actionFromRow row)
  | .deferred => .deferred (actionFromRow row)
  | .unknown => .unknown (actionFromRow row)
  | .pending | .expired => .missing

/-- The readings of the clock in a transaction, in their order. -/
abbrev Clock := Nat → Date

def observeCall (tenantId resultText : Text) : LedgerDb :=
  db.countUp tenantId (fun r => { r with
    calls := r.calls + 1
    throttled := r.throttled + if includes resultText "[throttle_exceeded]".toList then 1 else 0 }) fun _ => rfl

/-- `hold`, with the identifier that `randomUUID` draws. -/
def hold (options : Options) (clock : Clock) (drawn tenantId text : Text) : Except LedgerError (ObservedDraft × LedgerDb) := do
  let now ← toISOString (clock 0)
  let db := db.expireAndRecover tenantId now
  match db.actions.rows.find? (·.isActiveText tenantId text) with
  | some existing => return (actionFromRow existing, db)
  | none =>
    let createdAt ← toISOString (clock 1)
    let expiresAt ← toISOString ((clock 1).plus options.pendingTtlMs)
    let row : ActionRow := {
      tenantId := tenantId, id := "act_".toList ++ drawn, text := text, status := .pending, createdAt := createdAt
      expiresAt := expiresAt }
    match db.actions.insert? row with
    | none => throw .constraint
    | some actions =>
      return (actionFromRow row,
        { db with actions := actions }.countUp tenantId (fun r => { r with rejectedDrafts := r.rejectedDrafts + 1 }) fun _ => rfl)

def publicationState (clock : Clock) (tenantId : Text) (approval : HeldActionApproval) :
    Except LedgerError (PublicationClaim × LedgerDb) := do
  let now ← toISOString (clock 0)
  let db := db.expireAndRecover tenantId now
  match db.resolveActionRow contentId tenantId approval with
  | none => return (.missing, db)
  | some row =>
    match db.actionRow tenantId row.id with
    | none => throw .noRow
    | some fresh => return (db.publicationStateWithoutTransaction tenantId fresh, db)

/-- The pending action is dispatched. -/
def dispatch (tenantId id owner startedAt leaseUntil : Text) : LedgerDb :=
  db.reviseActions (fun r => r.is tenantId id && r.status = .pending) (·.claimed owner startedAt leaseUntil) <|
    retains_of_active (fun _ => rfl) (fun _ => rfl) (fun _ => rfl) fun r h =>
      @isActive_of_status _ .pending (by simp_all) (by decide)

/-- `claim`, with the owner that `randomUUID` draws. -/
def claim (options : Options) (clock : Clock) (drawn tenantId : Text) (approval : HeldActionApproval) :
    Except LedgerError (PublicationClaim × LedgerDb) := do
  let now ← toISOString (clock 0)
  let db := db.expireAndRecover tenantId now
  match db.resolveActionRow contentId tenantId approval with
  | none => return (.missing, db)
  | some row =>
    if row.status ≠ .pending then return (db.publicationStateWithoutTransaction tenantId row, db)
    else
      let leaseUntil ← toISOString ((clock 1).plus options.dispatchLeaseMs)
      let startedAt ← toISOString (clock 2)
      let changed := db.dispatch tenantId row.id drawn startedAt leaseUntil
      if db.actions.count (fun r => r.is tenantId row.id && r.status = .pending) = 1 then
        return (.claimed (actionFromRow (row.claimed drawn startedAt leaseUntil)) drawn, changed)
      else
        match changed.actionRow tenantId row.id with
        | none => throw .noRow
        | some fresh => return (changed.publicationStateWithoutTransaction tenantId fresh, changed)

def countSend (tenantId : Text) : LedgerDb := db.countUp tenantId (fun r => { r with sends := r.sends + 1 }) fun _ => rfl

/-- The action is sent, whatever its status was. -/
def markSent (tenantId id now : Text) : LedgerDb :=
  db.reviseActions (·.is tenantId id) (·.receipted now) ⟨fun _ => rfl, fun _ => rfl, fun _ => rfl, fun _ _ h => by cases h⟩

def recordReceipt (clock : Clock) (tenantId actionId owner receiptText url : Text) :
    Except LedgerError (ObservedReceipt × LedgerDb) := do
  match db.receiptRow tenantId actionId with
  | some existing => return (receiptFromRow existing, db)
  | none =>
    match db.actionRow tenantId actionId with
    | none => throw .notOwned
    | some action =>
      if action.status ≠ .dispatching ∨ action.dispatchOwner ≠ some owner then throw .notOwned
      else
        let now ← toISOString (clock 0)
        let receipt : ReceiptRow := ⟨tenantId, actionId, contentId tenantId url, receiptText, url, now⟩
        match db.receipts.insert? receipt with
        | none => throw .constraint
        | some receipts =>
          return (receiptFromRow receipt, ({ db with receipts := receipts }.markSent tenantId actionId now).countSend tenantId)

/-- The dispatched action of an owner is unknown. -/
def doubt (tenantId id owner now reason : Text) : LedgerDb :=
  db.reviseActions (·.isOwned tenantId id owner) (·.doubted now reason) <|
    retains_of_active (fun _ => rfl) (fun _ => rfl) (fun _ => rfl) fun r h =>
      @isActive_of_status _ .dispatching (by simp_all [ActionRow.isOwned]) (by decide)

/-- The dispatched action of an owner is put off. -/
def defer (tenantId id owner reason retryAt : Text) : LedgerDb :=
  db.reviseActions (·.isOwned tenantId id owner) (·.deferred reason retryAt) <|
    retains_of_active (fun _ => rfl) (fun _ => rfl) (fun _ => rfl) fun r h =>
      @isActive_of_status _ .dispatching (by simp_all [ActionRow.isOwned]) (by decide)

def markUnknown (clock : Clock) (tenantId actionId owner reason : Text) : Except LedgerError LedgerDb := do
  let now ← toISOString (clock 0)
  return db.doubt tenantId actionId owner now (takeUnits 500 reason)

def markDeferred (tenantId actionId owner reason : Text) (retryAt : Date) (countThrottle : Bool) :
    Except LedgerError (ObservedDraft × LedgerDb) := do
  let retryAt ← toISOString retryAt
  let changed := db.defer tenantId actionId owner (takeUnits 500 reason) retryAt
  if db.actions.count (·.isOwned tenantId actionId owner) ≠ 1 then throw .notOwned
  else
    let counted :=
      if countThrottle then changed.countUp tenantId (fun r => { r with throttled := r.throttled + 1 }) fun _ => rfl else changed
    match counted.actionRow tenantId actionId with
    | none => throw .noRow
    | some row => return (actionFromRow row, counted)

/-- An unknown action turns out to be sent. -/
def settle (tenantId id now : Text) : LedgerDb :=
  db.reviseActions (fun r => r.is tenantId id && r.status = .unknown) (·.reconciled now)
    ⟨fun _ => rfl, fun _ => rfl, fun _ => rfl, fun _ _ h => by cases h⟩

def reconcileSent (clock : Clock) (tenantId : Text) (approval : HeldActionApproval) (receiptText url : Text) :
    Except LedgerError (Option ObservedReceipt × LedgerDb) := do
  match db.resolveActionRow contentId tenantId approval with
  | none => return (none, db)
  | some row =>
    if row.status = .sent then return ((db.receiptRow tenantId row.id).map receiptFromRow, db)
    else if row.status ≠ .unknown then return (none, db)
    else if (db.receipts.rows.find? fun r => r.tenantId = tenantId && r.url = url).any (·.actionId ≠ row.id) then
      return (none, db)
    else
      let now ← toISOString (clock 0)
      let receipt : ReceiptRow := ⟨tenantId, row.id, contentId tenantId url, receiptText, url, now⟩
      -- `INSERT OR IGNORE`
      let receipts := (db.receipts.insert? receipt).getD db.receipts
      let settled := ({ db with receipts := receipts }.settle tenantId row.id now).countSend tenantId
      match settled.receiptRow tenantId row.id with
      | none => throw .noRow
      | some receipt => return (some (receiptFromRow receipt), settled)

/-- `resolve`. -/
def resolvePending (clock : Clock) (tenantId : Text) (approval : HeldActionApproval) :
    Except LedgerError (Option ObservedDraft × LedgerDb) := do
  let now ← toISOString (clock 0)
  let db := db.expireAndRecover tenantId now
  return (((db.resolveActionRow contentId tenantId approval).filter (·.status = .pending)).map actionFromRow, db)

end LedgerDb

/-! ## Runs -/

inductive Request
  | observeCall (tenantId resultText : Text)
  | hold (options : Options) (drawn tenantId text : Text)
  | publicationState (tenantId : Text) (approval : HeldActionApproval)
  | claim (options : Options) (drawn tenantId : Text) (approval : HeldActionApproval)
  | recordReceipt (tenantId actionId owner receiptText url : Text)
  | markUnknown (tenantId actionId owner reason : Text)
  | markDeferred (tenantId actionId owner reason : Text) (retryAt : Date) (countThrottle : Bool)
  | reconcileSent (tenantId : Text) (approval : HeldActionApproval) (receiptText url : Text)
  | resolve (tenantId : Text) (approval : HeldActionApproval)

inductive Reply
  | done
  | draft (draft : Option ObservedDraft)
  | publication (claim : PublicationClaim)
  | receipt (receipt : Option ObservedReceipt)
deriving DecidableEq

variable (contentId : Text → Text → Text)

/-- One transaction, with the readings of the instance's clock. -/
def Request.transact (clock : LedgerDb.Clock) (db : LedgerDb) : Request → Except LedgerError (Reply × LedgerDb)
  | .observeCall tenantId resultText => .ok (.done, db.observeCall tenantId resultText)
  | .hold options drawn tenantId text => (db.hold options clock drawn tenantId text).map fun r => (.draft (some r.1), r.2)
  | .publicationState tenantId approval =>
    (db.publicationState contentId clock tenantId approval).map fun r => (.publication r.1, r.2)
  | .claim options drawn tenantId approval =>
    (db.claim contentId options clock drawn tenantId approval).map fun r => (.publication r.1, r.2)
  | .recordReceipt tenantId actionId owner receiptText url =>
    (db.recordReceipt contentId clock tenantId actionId owner receiptText url).map fun r => (.receipt (some r.1), r.2)
  | .markUnknown tenantId actionId owner reason => (db.markUnknown clock tenantId actionId owner reason).map fun r => (.done, r)
  | .markDeferred tenantId actionId owner reason retryAt countThrottle =>
    (db.markDeferred tenantId actionId owner reason retryAt countThrottle).map fun r => (.draft (some r.1), r.2)
  | .reconcileSent tenantId approval receiptText url =>
    (db.reconcileSent contentId clock tenantId approval receiptText url).map fun r => (.receipt r.1, r.2)
  | .resolve tenantId approval => (db.resolvePending contentId clock tenantId approval).map fun r => (.draft r.1, r.2)

/-- A request, and the clock of the instance that makes it. -/
structure Transaction where
  request : Request
  clock : LedgerDb.Clock

/-- A transaction that throws is rolled back. -/
def Transaction.apply (t : Transaction) (db : LedgerDb) : Except LedgerError Reply × LedgerDb :=
  match t.request.transact contentId t.clock db with
  | .ok (reply, db') => (.ok reply, db')
  | .error e => (.error e, db)

def run (db : LedgerDb) (ts : List Transaction) : LedgerDb := ts.foldl (fun db t => (t.apply contentId db).2) db

/-- What a caller may publish by, or has put off. -/
inductive Event
  | claimed (tenantId actionId owner : Text)
  | deferred (tenantId actionId owner : Text)
deriving DecidableEq

/-- A claim that was answered with its owner, and a deferral that did not throw. -/
def Request.event : Request → Reply → Option Event
  | .claim _ _ tenantId _, .publication (.claimed action owner) => some (.claimed tenantId action.id owner)
  | .markDeferred tenantId actionId owner _ _ _, _ => some (.deferred tenantId actionId owner)
  | _, _ => none

def Transaction.event (t : Transaction) (db : LedgerDb) : Option Event :=
  match (t.apply contentId db).1 with
  | .ok reply => t.request.event reply
  | .error _ => none

/-- The claims and deferrals of a run, in their order. -/
def history : List Transaction → LedgerDb → List Event
  | [], _ => []
  | t :: ts, db => (t.event contentId db).toList ++ history ts (t.apply contentId db).2

end Zenod.Publication
