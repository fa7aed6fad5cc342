/-
`PhylaxAllowanceLedger`, method by method. What runs inside a transaction is
an `Except` over the database: an error rolls back (`transaction`). A method
reads the clock several times; `now k` is its `k`-th reading. `randomUUID` is
an argument, drawn once per call.

`recordUsage` and the two completions commit what they did even when the
usage itself is refused: their transaction returns an inner `Except`.
-/
import Zenod.Phylax.Store

namespace Zenod.Phylax

/-- Commit, or roll back and rethrow. -/
def transaction {α : Type} (db : Db) (run : Db → Except LedgerError (α × Db)) : Except LedgerError α × Db :=
  match run db with
  | .ok (value, db') => (.ok value, db')
  | .error e => (.error e, db)

/-- `if (!attempt.ok) throw attempt.error`, after the transaction committed. -/
def throwing {α : Type} (outcome : Except LedgerError (Except LedgerError α) × Db) : Except LedgerError α × Db :=
  match outcome.1 with
  | .ok attempt => (attempt, outcome.2)
  | .error e => (.error e, outcome.2)

/-! ## Public rows -/

structure AllowanceEntry where
  sequence : Nat
  tenantId : String
  periodId : Option String
  kind : EntryKind
  amountUnits : Int
  source : String
  idempotencyKey : String
  tariffVersion : String
  auditReason : String
  providerEventId : Option String
  operation : Option String
  provider : Option String
  model : Option String
  costBasis : Option CostBasis
  occurredAt : Int
  createdAt : Int
deriving DecidableEq

def entry (row : EntryRow) : AllowanceEntry where
  sequence := row.sequence
  tenantId := row.tenantId
  periodId := row.periodId
  kind := row.kind
  amountUnits := row.amountUnits
  source := row.source
  idempotencyKey := row.idempotencyKey
  tariffVersion := row.tariffVersion
  auditReason := row.auditReason
  providerEventId := row.providerEventId
  operation := row.operation
  provider := row.provider
  model := row.model
  costBasis := row.costBasis
  occurredAt := row.occurredAt
  createdAt := row.createdAt

structure PaidWork where
  id : String
  tenantId : String
  periodId : String
  idempotencyKey : String
  providerEventId : String
  operation : String
  custodyRef : String
  estimatedUnits : Int
  reservedUnits : Int
  state : PaidWorkState
  pauseReason : Option PauseReason
  leaseOwner : Option String
  leaseToken : Option String
  leaseUntil : Option Int
  usageEntrySequence : Option Nat
  providerReceiptId : Option String
  createdAt : Int
  updatedAt : Int
deriving DecidableEq

def paidWork (row : PaidWorkRow) : PaidWork where
  id := row.id
  tenantId := row.tenantId
  periodId := row.periodId
  idempotencyKey := row.idempotencyKey
  providerEventId := row.providerEventId
  operation := row.operation
  custodyRef := row.custodyRef
  estimatedUnits := row.estimatedUnits
  reservedUnits := row.reservedUnits
  state := row.state
  pauseReason := row.pauseReason
  leaseOwner := row.leaseOwner
  leaseToken := row.leaseToken
  leaseUntil := row.leaseUntil
  usageEntrySequence := row.usageEntrySequence
  providerReceiptId := row.providerReceiptId
  createdAt := row.createdAt
  updatedAt := row.updatedAt

structure LedgerMutation where
  entry : AllowanceEntry
  replayed : Bool
deriving DecidableEq

inductive AdmissionState | ready | paused | replayed
deriving DecidableEq

structure PaidWorkAdmission where
  state : AdmissionState
  work : PaidWork
deriving DecidableEq

structure Completion where
  work : PaidWork
  usage : LedgerMutation
deriving DecidableEq

variable (B : Backend)

/-! ## Periods and entries -/

def ensurePeriod (db : Db) (tenantId periodId : String) (startsAt endsAt createdAt : Int) :
    Except LedgerError (PeriodRow × Db) :=
  if endsAt ≤ startsAt then .error (.error "endsAt must be after startsAt")
  else
    -- INSERT OR IGNORE
    let db := match db.periods.insert? ⟨tenantId, periodId, startsAt, endsAt, createdAt⟩ with
      | some periods => { db with periods := periods }
      | none => db
    match db.period tenantId periodId with
    | none => .error (.error "allowance period does not exist")
    | some existing =>
      if existing.startsAt ≠ startsAt ∨ existing.endsAt ≠ endsAt then
        .error (.conflict "period identity was reused with different boundaries")
      else .ok (existing, db)

def assertPeriodOpen (period : PeriodRow) (at_ : Int) : Except LedgerError Unit :=
  if period.endsAt ≤ at_ then .error (.error "allowance period is closed") else .ok ()

def replayOrConflict (existing : EntryRow) (expectedHash : String) : Except LedgerError LedgerMutation :=
  if existing.payloadHash ≠ expectedHash then
    .error (.conflict "idempotency identity was reused with different ledger input")
  else .ok ⟨entry existing, true⟩

def periodBalance (db : Db) (tenantId periodId : String) : Int := (B.periodTotals db tenantId periodId).balance

def availableInPeriod (db : Db) (tenantId periodId : String) : Int :=
  max 0 (periodBalance B db tenantId periodId - db.reservedInPeriod tenantId periodId)

def grantAllowance (input : GrantInput (Option Int)) (now : Nat → Int) (db : Db) :
    Except LedgerError LedgerMutation × Db :=
  transaction db fun db => do
    let normalized ← input.normalize (now 0)
    let hash := payloadHash B.sha256 normalized.payload
    match db.entryByIdempotency normalized.tenantId normalized.idempotencyKey with
    | some existing => return (← replayOrConflict existing hash, db)
    | none =>
      let createdAt := now 1
      let (period, db) ← ensurePeriod db normalized.tenantId normalized.periodId normalized.startsAt
        normalized.endsAt createdAt
      assertPeriodOpen period createdAt
      let (row, db) ← insertEntry db {
        tenantId := normalized.tenantId, periodId := some normalized.periodId, kind := .grant,
        amountUnits := normalized.amountUnits, source := normalized.source,
        idempotencyKey := normalized.idempotencyKey, hash := hash, tariffVersion := normalized.tariffVersion,
        auditReason := normalized.auditReason, providerEventId := none, operation := none, provider := none,
        model := none, costBasis := none, occurredAt := normalized.occurredAt, createdAt := createdAt }
      return (⟨entry row, false⟩, db)

def adjustAllowance (input : AdjustInput (Option Int)) (now : Nat → Int) (db : Db) :
    Except LedgerError LedgerMutation × Db :=
  transaction db fun db => do
    let normalized ← input.normalize (now 0)
    if normalized.amountUnits = 0 then .error (.error "amountUnits must not be zero")
    else
    let hash := payloadHash B.sha256 normalized.payload
    match db.entryByIdempotency normalized.tenantId normalized.idempotencyKey with
    | some existing => return (← replayOrConflict existing hash, db)
    | none =>
      match db.period normalized.tenantId normalized.periodId with
      | none => .error (.error "allowance period does not exist")
      | some period =>
        assertPeriodOpen period (now 1)
        if normalized.amountUnits < 0 ∧
            -normalized.amountUnits > availableInPeriod B db normalized.tenantId normalized.periodId then
          .error (.error "negative adjustment may reclaim only unused allowance")
        else
        let (row, db) ← insertEntry db {
          tenantId := normalized.tenantId, periodId := some normalized.periodId, kind := .adjustment,
          amountUnits := normalized.amountUnits, source := normalized.source,
          idempotencyKey := normalized.idempotencyKey, hash := hash, tariffVersion := normalized.tariffVersion,
          auditReason := normalized.auditReason, providerEventId := none, operation := none, provider := none,
          model := none, costBasis := none, occurredAt := normalized.occurredAt, createdAt := now 2 }
        return (⟨entry row, false⟩, db)

/-! ## Expiry -/

/-- `system:expiry:${period_id}:through:${anchor}`. -/
def expiryKey (periodId : String) (anchor : Nat) : String :=
  "system:expiry:" ++ periodId ++ ":through:" ++ toString anchor

/-- The captured and ready work of an ended period is paused. -/
def pauseEnded (now : Int) (db : Db) (period : PeriodRow) : Db :=
  db.updateWork (fun w => w.isIn period.tenantId period.periodId ∧ w.isOpen)
    (·.unleased .paused (some .periodInactive) now) (PaidWorkRow.keeps fun _ => rfl)

/-- What an ended period still holds beyond its processing work. -/
def reclaimable (db : Db) (period : PeriodRow) : Int :=
  max 0 (periodBalance B db period.tenantId period.periodId - db.processingInPeriod period.tenantId period.periodId)

def expiryEntry (now : Int) (db : Db) (period : PeriodRow) : EntryInput where
  tenantId := period.tenantId
  periodId := some period.periodId
  kind := .expiry
  amountUnits := -reclaimable B db period
  source := "phylax"
  idempotencyKey := expiryKey period.periodId (db.lastSequenceInPeriod period.tenantId period.periodId)
  hash := payloadHash B.sha256 (expiryPayload period.tenantId period.periodId (reclaimable B db period))
  tariffVersion := "expiry-v1"
  auditReason := "allowance period ended; unused allocation expired"
  providerEventId := none
  operation := none
  provider := none
  model := none
  costBasis := none
  occurredAt := period.endsAt
  createdAt := now

/-- What the sweep does to one ended period. -/
def expirePeriod (now : Int) (inserted : Nat) (db : Db) (period : PeriodRow) : Except LedgerError (Nat × Db) :=
  let db := pauseEnded now db period
  if reclaimable B db period = 0 then .ok (inserted, db)
  else match db.entryByIdempotency period.tenantId (expiryEntry B now db period).idempotencyKey with
    | some _ => .ok (inserted, db)
    | none => do
      let (_, db) ← insertEntry db (expiryEntry B now db period)
      return (inserted + 1, db)

/-- The sweep's loop. -/
def expirePeriods (now : Int) : List PeriodRow → Nat → Db → Except LedgerError (Nat × Db)
  | [], inserted, db => .ok (inserted, db)
  | period :: periods, inserted, db => do
    let (inserted, db) ← expirePeriod B now inserted db period
    expirePeriods now periods inserted db

def reconcileExpiredPeriodsInTransaction (now : Int) (db : Db) : Except LedgerError (Nat × Db) :=
  expirePeriods B now (B.duePeriods db now) 0 db

def reconcileExpiredPeriods (at_ : Int) (db : Db) : Except LedgerError Nat × Db :=
  transaction db fun db => do
    let now ← timestamp at_ "at"
    reconcileExpiredPeriodsInTransaction B now db

/-! ## Usage -/

/-- The entry a usage books. -/
def usageEntry (normalized : UsageInput Int) (hash : String) (acceptedAt : Int) : EntryInput where
  tenantId := normalized.tenantId
  periodId := some normalized.periodId
  kind := .usage
  amountUnits := -normalized.amountUnits
  source := normalized.provider
  idempotencyKey := normalized.idempotencyKey
  hash := hash
  tariffVersion := normalized.tariffVersion
  auditReason := normalized.auditReason
  providerEventId := some normalized.providerEventId
  operation := some normalized.operation
  provider := some normalized.provider
  model := normalized.model
  costBasis := some normalized.costBasis
  occurredAt := normalized.occurredAt
  createdAt := acceptedAt

/-- `attemptUsageInTransaction` once no earlier entry answers for the usage. -/
def admitUsage (db : Db) (normalized : UsageInput Int) (hash : String) (acceptedAt ownedReservationUnits : Int) :
    Except LedgerError (Except LedgerError LedgerMutation × Db) :=
  match db.period normalized.tenantId normalized.periodId with
  | none => .error (.error "allowance period does not exist")
  | some period =>
    let acceptedOutsidePeriod := acceptedAt < period.startsAt ∨ acceptedAt ≥ period.endsAt
    let eventOutsidePeriod := normalized.occurredAt < period.startsAt ∨ normalized.occurredAt ≥ period.endsAt
    if eventOutsidePeriod ∨ (acceptedOutsidePeriod ∧ ownedReservationUnits = 0) then
      .ok (.error (.error "usage requires an active allowance period"), db)
    else do
      let owned ← units ownedReservationUnits "ownedReservationUnits" ⟨false, true⟩
      if normalized.amountUnits > availableInPeriod B db normalized.tenantId normalized.periodId + owned then
        return (.error (.error "usage exceeds currently unreserved allowance"), db)
      else
      let (row, db) ← insertEntry db (usageEntry normalized hash acceptedAt)
      return (.ok ⟨entry row, false⟩, db)

def attemptUsageInTransaction (db : Db) (normalized : UsageInput Int) (hash : String)
    (acceptedAt ownedReservationUnits : Int) :
    Except LedgerError (Except LedgerError LedgerMutation × Db) := do
  let (_, db) ← reconcileExpiredPeriodsInTransaction B acceptedAt db
  match db.entryByIdempotency normalized.tenantId normalized.idempotencyKey with
  | some byIdempotency => return (.ok (← replayOrConflict byIdempotency hash), db)
  | none =>
    match db.usageByProviderEvent normalized.tenantId normalized.providerEventId normalized.operation with
    | some byProvider => return (.ok (← replayOrConflict byProvider hash), db)
    | none => admitUsage B db normalized hash acceptedAt ownedReservationUnits

def recordUsage (input : UsageInput (Option Int)) (now : Nat → Int) (db : Db) :
    Except LedgerError LedgerMutation × Db :=
  throwing <| transaction db fun db => do
    let acceptedAt ← timestamp (now 0) "acceptedAt"
    let normalized ← input.normalize acceptedAt
    attemptUsageInTransaction B db normalized (payloadHash B.sha256 normalized.payload) acceptedAt 0

/-! ## Controls -/

def control (input : ControlInput (Option Int)) (kind : EntryKind) (now : Nat → Int) (db : Db) :
    Except LedgerError LedgerMutation × Db :=
  transaction db fun db => do
    let normalized ← input.normalize (now 0)
    let hash := payloadHash B.sha256 (normalized.payload kind)
    match db.entryByIdempotency normalized.tenantId normalized.idempotencyKey with
    | some existing => return (← replayOrConflict existing hash, db)
    | none =>
      let (row, db) ← insertEntry db {
        tenantId := normalized.tenantId, periodId := none, kind := kind, amountUnits := 0,
        source := normalized.source, idempotencyKey := normalized.idempotencyKey, hash := hash,
        tariffVersion := "control-v1", auditReason := normalized.auditReason, providerEventId := none,
        operation := none, provider := none, model := none, costBasis := none,
        occurredAt := normalized.occurredAt, createdAt := now 1 }
      let db := if kind = .suspend then
          db.updateWork (fun w => w.tenantId = normalized.tenantId ∧ w.isOpen)
            (·.unleased .paused (some .suspended) (now 2)) (PaidWorkRow.keeps fun _ => rfl)
        else db
      return (⟨entry row, false⟩, db)

def suspendTenant (input : ControlInput (Option Int)) : (Nat → Int) → Db → Except LedgerError LedgerMutation × Db :=
  control B input .suspend

def resumeTenant (input : ControlInput (Option Int)) : (Nat → Int) → Db → Except LedgerError LedgerMutation × Db :=
  control B input .resume

/-! ## Paid work: admission -/

/-- `this.work(id)!`. -/
def theWork (db : Db) (id : String) : Except LedgerError PaidWorkRow :=
  match db.workById id with
  | some row => .ok row
  | none => .error (.error "paid work does not exist")

/-- Where `evaluateWork` sends a captured or paused row. -/
def evaluation (db : Db) (current : PaidWorkRow) (now : Int) : PaidWorkState × Option PauseReason :=
  if db.isSuspended current.tenantId then (.paused, some .suspended)
  else match db.period current.tenantId current.periodId with
    | none => (.paused, some .periodInactive)
    | some period =>
      if period.startsAt > now ∨ period.endsAt ≤ now then (.paused, some .periodInactive)
      else if availableInPeriod B db current.tenantId current.periodId < current.estimatedUnits then
        (.paused, some .insufficientAllowance)
      else (.ready, none)

/-- The row `evaluateWork` writes. -/
def PaidWorkRow.evaluated (w : PaidWorkRow) (verdict : PaidWorkState × Option PauseReason) (now : Int) :
    PaidWorkRow :=
  { w.unleased verdict.1 verdict.2 now with
    reservedUnits := if verdict.1 = .ready then w.estimatedUnits else 0 }

def evaluateWork (id : String) (now : Int) (db : Db) : Except LedgerError (PaidWorkRow × Db) := do
  let current ← theWork db id
  if current.state = .captured ∨ current.state = .paused then
    let verdict := evaluation B db current now
    let db := db.updateWork (fun w => w.id = id) (·.evaluated verdict now) (PaidWorkRow.keeps fun _ => rfl)
    return (← theWork db id, db)
  else return (current, db)

/-- The row `admitPaidWork` inserts. -/
def capturedRow (id : String) (normalized : AdmitInput Int) (hash : String) (now : Int) : PaidWorkRow where
  id := id
  tenantId := normalized.tenantId
  periodId := normalized.periodId
  idempotencyKey := normalized.idempotencyKey
  payloadHash := hash
  providerEventId := normalized.providerEventId
  operation := normalized.operation
  custodyRef := normalized.custodyRef
  estimatedUnits := normalized.estimatedUnits
  reservedUnits := 0
  state := .captured
  pauseReason := none
  leaseOwner := none
  leaseToken := none
  leaseUntil := none
  completedLeaseOwner := none
  completedLeaseToken := none
  usageEntrySequence := none
  providerReceiptId := none
  cancellationRequestedAt := none
  createdAt := normalized.capturedAt
  updatedAt := now

/-- `byIdempotency ?? byProvider`. -/
def existingWork (db : Db) (normalized : AdmitInput Int) : Option PaidWorkRow :=
  (db.workByIdempotency normalized.tenantId normalized.idempotencyKey).or
    (db.workByProviderEvent normalized.tenantId normalized.providerEventId normalized.operation)

def admitPaidWork (input : AdmitInput (Option Int)) (now : Nat → Int) (randomUUID : String) (db : Db) :
    Except LedgerError PaidWorkAdmission × Db :=
  transaction db fun db => do
    let normalized ← input.normalize (now 0)
    let hash := payloadHash B.sha256 normalized.payload
    let (_, db) ← reconcileExpiredPeriodsInTransaction B (now 1) db
    match existingWork db normalized with
    | some existing =>
      if existing.payloadHash ≠ hash then
        .error (.conflict "paid-work identity was reused with different input")
      else if existing.state = .paused ∨ existing.state = .captured then do
        let (_, db) ← evaluateWork B existing.id (now 2) db
        return (⟨.replayed, paidWork (← theWork db existing.id)⟩, db)
      else return (⟨.replayed, paidWork (← theWork db existing.id)⟩, db)
    | none =>
      match db.work.insert? (capturedRow randomUUID normalized hash (now 2)) with
      | none => .error (.constraint "UNIQUE constraint failed: phylax_paid_work")
      | some work =>
        let (evaluated, db) ← evaluateWork B randomUUID (now 2) { db with work := work }
        return (⟨if evaluated.state = .ready then .ready else .paused, paidWork evaluated⟩, db)

/-- `ORDER BY created_at, id`. -/
def PaidWorkRow.le (a b : PaidWorkRow) : Prop :=
  a.createdAt < b.createdAt ∨ a.createdAt = b.createdAt ∧ (a.id < b.id ∨ a.id = b.id)

instance (a b : PaidWorkRow) : Decidable (PaidWorkRow.le a b) := by unfold PaidWorkRow.le; infer_instance

/-- The rows a query selects, oldest first. -/
def selectWork (db : Db) (p : PaidWorkRow → Bool) : List PaidWorkRow :=
  (db.work.rows.filter p).insertionSort PaidWorkRow.le

/-- The loop of `resumePaused`. -/
def evaluateAll (now : Int) : List PaidWorkRow → Nat → Db → Except LedgerError (Nat × Db)
  | [], ready, db => .ok (ready, db)
  | candidate :: candidates, ready, db => do
    let (row, db) ← evaluateWork B candidate.id now db
    evaluateAll now candidates (if row.state = .ready then ready + 1 else ready) db

def resumePaused (tenantId : String) (at_ : Int) (db : Db) : Except LedgerError Nat × Db :=
  transaction db fun db => do
    let tenantId ← required tenantId "tenantId" 512
    let now ← timestamp at_ "at"
    let (_, db) ← reconcileExpiredPeriodsInTransaction B now db
    evaluateAll B now
      (selectWork db fun w => w.tenantId = tenantId ∧ (w.state = .captured ∨ w.state = .paused)) 0 db

/-! ## Paid work: leases -/

/-- `state='processing' AND lease_until <= now`. -/
def PaidWorkRow.leaseExpired (w : PaidWorkRow) (now : Int) : Bool :=
  w.state = .processing && match w.leaseUntil with
    | some leaseUntil => decide (leaseUntil ≤ now)
    | none => false

/-- Reclaim the lease of one row the sweep selected. -/
def reclaimLease (now : Int) (changed : Nat) (db : Db) (row : PaidWorkRow) : Except LedgerError (Nat × Db) :=
  let mine : PaidWorkRow → Bool := fun w => w.id = row.id ∧ w.leaseExpired now
  if row.cancellationRequestedAt.isSome then
    .ok (changed + db.work.count mine, db.updateWork mine (·.unleased .cancelled none now) (PaidWorkRow.keeps fun _ => rfl))
  else if db.work.count mine = 1 then do
    let (_, db) ← evaluateWork B row.id now
      (db.updateWork mine (·.unleased .captured none now) (PaidWorkRow.keeps fun _ => rfl))
    return (changed + 1, db)
  else .ok (changed, db.updateWork mine (·.unleased .captured none now) (PaidWorkRow.keeps fun _ => rfl))

/-- The loop over the expired leases. -/
def reclaimLeases (now : Int) : List PaidWorkRow → Nat → Db → Except LedgerError (Nat × Db)
  | [], changed, db => .ok (changed, db)
  | row :: rows, changed, db => do
    let (changed, db) ← reclaimLease B now changed db row
    reclaimLeases now rows changed db

/-- `tenantId` narrows the sweep when it is given and not empty. -/
def reconcileExpiredPaidWorkInTransaction (now : Int) (tenantId : Option String) (db : Db) :
    Except LedgerError (Nat × Db) :=
  reclaimLeases B now (selectWork db fun w => w.leaseExpired now && match tenantId with
    | some t => decide (t = "" ∨ w.tenantId = t)
    | none => true) 0 db

def reconcileExpiredPaidWork (at_ : Int) (db : Db) : Except LedgerError Nat × Db :=
  transaction db fun db => do
    let now ← timestamp at_ "at"
    reconcileExpiredPaidWorkInTransaction B now none db

/-- The row a granted claim writes. -/
def PaidWorkRow.leased (w : PaidWorkRow) (owner token : String) (leaseUntil now : Int) : PaidWorkRow :=
  { w with
    state := .processing, leaseOwner := some owner, leaseToken := some token, leaseUntil := some leaseUntil,
    updatedAt := now }

def claimNextPaidWork (tenantId workerId : String) (leaseMs at_ : Int) (randomUUID : String) (db : Db) :
    Except LedgerError (Option PaidWork) × Db :=
  transaction db fun db => do
    let tenantId ← required tenantId "tenantId" 512
    let workerId ← required workerId "workerId" 512
    let now ← timestamp at_ "at"
    let lease ← units leaseMs "leaseMs" ⟨true, false⟩
    let (_, db) ← reconcileExpiredPaidWorkInTransaction B now (some tenantId) db
    let (_, db) ← reconcileExpiredPeriodsInTransaction B now db
    match (selectWork db fun w => w.tenantId = tenantId ∧ w.state = .ready).head? with
    | none => return (none, db)
    | some candidate =>
      let mine : PaidWorkRow → Bool := fun w => w.id = candidate.id ∧ w.state = .ready
      let changes := db.work.count mine
      let db := db.updateWork mine (·.leased workerId randomUUID (now + lease) now) (PaidWorkRow.keeps fun _ => rfl)
      if changes = 1 then return (some (paidWork (← theWork db candidate.id)), db)
      else return (none, db)

def claimPaidWork (workId tenantId workerId : String) (leaseMs at_ : Int) (randomUUID : String) (db : Db) :
    Except LedgerError (Option PaidWork) × Db :=
  transaction db fun db => do
    let workId ← required workId "workId" 512
    let tenantId ← required tenantId "tenantId" 512
    let workerId ← required workerId "workerId" 512
    let now ← timestamp at_ "at"
    let lease ← units leaseMs "leaseMs" ⟨true, false⟩
    match db.workById workId with
    | none => return (none, db)
    | some current =>
      if current.tenantId ≠ tenantId then return (none, db)
      else
      let (_, db) ← (if current.leaseExpired now then
          reconcileExpiredPaidWorkInTransaction B now (some tenantId) db
        else .ok (0, db))
      let (_, db) ← reconcileExpiredPeriodsInTransaction B now db
      match db.workById workId with
      | none => return (none, db)
      | some ready =>
        if ready.tenantId ≠ tenantId ∨ ready.state ≠ .ready then return (none, db)
        else
        let mine : PaidWorkRow → Bool := fun w => w.id = workId ∧ w.tenantId = tenantId ∧ w.state = .ready
        let changes := db.work.count mine
        let db := db.updateWork mine (·.leased workerId randomUUID (now + lease) now) (PaidWorkRow.keeps fun _ => rfl)
        if changes = 1 then return (some (paidWork (← theWork db workId)), db)
        else return (none, db)

/-- The row carries this claim. -/
def PaidWorkRow.heldBy (w : PaidWorkRow) (owner token : String) : Bool :=
  w.leaseOwner = some owner ∧ w.leaseToken = some token

/-- `lease_until > now`. -/
def PaidWorkRow.leaseLive (w : PaidWorkRow) (now : Int) : Bool :=
  match w.leaseUntil with
  | some leaseUntil => now < leaseUntil
  | none => false

structure LeaseInput where
  workId : String
  tenantId : String
  leaseOwner : String
  leaseToken : String

def renewPaidWorkLease (input : LeaseInput) (leaseMs : Int) (now : Nat → Int) (db : Db) :
    Except LedgerError PaidWork × Db :=
  transaction db fun db => do
    let workId ← required input.workId "workId" 512
    let tenantId ← required input.tenantId "tenantId" 512
    let leaseOwner ← required input.leaseOwner "leaseOwner" 512
    let leaseToken ← required input.leaseToken "leaseToken" 512
    let leaseMs ← units leaseMs "leaseMs" ⟨true, false⟩
    let mine : PaidWorkRow → Bool := fun w =>
      w.id = workId ∧ w.tenantId = tenantId ∧ w.state = .processing ∧ w.heldBy leaseOwner leaseToken ∧
        w.leaseLive (now 0)
    if db.work.count mine ≠ 1 then .error (.conflict "paid work lease cannot be renewed by this claim")
    else
    let db := db.updateWork mine
      (fun w => { w with leaseUntil := some (now 0 + leaseMs), updatedAt := now 0 }) (PaidWorkRow.keeps fun _ => rfl)
    return (paidWork (← theWork db workId), db)

def releasePaidWorkForRetry (input : LeaseInput) (now : Nat → Int) (db : Db) : Except LedgerError PaidWork × Db :=
  transaction db fun db => do
    let workId ← required input.workId "workId" 512
    let tenantId ← required input.tenantId "tenantId" 512
    let leaseOwner ← required input.leaseOwner "leaseOwner" 512
    let leaseToken ← required input.leaseToken "leaseToken" 512
    match db.workById workId with
    | none => .error (.error "paid work does not exist for tenant")
    | some current =>
      if current.tenantId ≠ tenantId then .error (.error "paid work does not exist for tenant")
      else if current.state ≠ .processing then return (paidWork current, db)
      else if current.leaseOwner ≠ some leaseOwner ∨ current.leaseToken ≠ some leaseToken then
        .error (.conflict "paid work release lease does not match the active claim")
      else
      let mine : PaidWorkRow → Bool := fun w =>
        w.id = workId ∧ w.tenantId = tenantId ∧ w.state = .processing ∧ w.heldBy leaseOwner leaseToken
      if current.cancellationRequestedAt.isSome then
        let db := db.updateWork mine (·.unleased .cancelled none (now 0)) (PaidWorkRow.keeps fun _ => rfl)
        return (paidWork (← theWork db workId), db)
      else
        let db := db.updateWork mine (·.unleased .captured none (now 0)) (PaidWorkRow.keeps fun _ => rfl)
        let (row, db) ← evaluateWork B workId (now 0) db
        return (paidWork row, db)

structure CancelInput where
  workId : String
  tenantId : String
  leaseOwner : Option String
  leaseToken : Option String

/-- `!value` of an optional string. -/
def falsy (value : Option String) : Bool :=
  match value with
  | some s => s = ""
  | none => true

/-- `column !== value?.trim()`: a missing value is `undefined`, which no column holds. -/
def differsFrom (column value : Option String) : Bool :=
  match value with
  | some s => column ≠ some (Js.trim s)
  | none => true

def cancelPaidWork (input : CancelInput) (now : Nat → Int) (db : Db) : Except LedgerError PaidWork × Db :=
  transaction db fun db => do
    let workId ← required input.workId "workId" 512
    let tenantId ← required input.tenantId "tenantId" 512
    match db.workById workId with
    | none => .error (.error "paid work does not exist for tenant")
    | some current =>
      if current.tenantId ≠ tenantId then .error (.error "paid work does not exist for tenant")
      else if current.state = .done ∨ current.state = .cancelled then return (paidWork current, db)
      else if current.state = .processing ∧ falsy input.leaseOwner ∧ falsy input.leaseToken then
        let db := db.updateWork (fun w => w.id = workId ∧ w.tenantId = tenantId ∧ w.state = .processing)
          (fun w => { w with cancellationRequestedAt := some (now 0), updatedAt := now 1 }) (PaidWorkRow.keeps fun _ => rfl)
        return (paidWork (← theWork db workId), db)
      else if current.state = .processing ∧
          (differsFrom current.leaseOwner input.leaseOwner ∨ differsFrom current.leaseToken input.leaseToken) then
        .error (.conflict "actively leased paid work cannot be cancelled without its exact claim")
      else
      let db := db.updateWork
        (fun w => w.id = workId ∧ w.tenantId = tenantId ∧
          (w.state = .captured ∨ w.state = .ready ∨ w.state = .paused ∨ w.state = .processing))
        (fun w => { w.unleased .cancelled none (now 0) with cancellationRequestedAt := none }) (PaidWorkRow.keeps fun _ => rfl)
      return (paidWork (← theWork db workId), db)

/-! ## Paid work: settlement -/

structure CompleteInput where
  workId : String
  tenantId : String
  leaseOwner : String
  leaseToken : String
  amountUnits : Int
  providerEventId : String
  usageProviderEventId : Option String
  provider : String
  model : Option String
  costBasis : CostBasis
  idempotencyKey : String
  tariffVersion : String
  auditReason : String
  occurredAt : Option Int

/-- The usage `completePaidWork` books for a row. -/
def CompleteInput.usage (input : CompleteInput) (tenantId : String) (current : PaidWorkRow) :
    Except LedgerError (UsageInput Int) := do
  return {
    tenantId := tenantId
    periodId := current.periodId
    amountUnits := ← units input.amountUnits "amountUnits" ⟨false, true⟩
    providerEventId := (trimmedOrNull input.usageProviderEventId).getD current.providerEventId
    operation := current.operation
    provider := ← required input.provider "provider" 512
    model := trimmedOrNull input.model
    costBasis := input.costBasis
    idempotencyKey := ← required input.idempotencyKey "idempotencyKey" 512
    tariffVersion := ← required input.tariffVersion "tariffVersion" 512
    auditReason := ← required input.auditReason "auditReason" 2000
    occurredAt := ← timestamp (input.occurredAt.getD current.createdAt) "occurredAt" }

/-- The row a completion writes. -/
def PaidWorkRow.completed (w : PaidWorkRow) (owner token : String) (sequence : Nat) (receipt : String) (now : Int) :
    PaidWorkRow :=
  { w.unleased .done none now with
    cancellationRequestedAt := none, completedLeaseOwner := some owner, completedLeaseToken := some token,
    usageEntrySequence := some sequence, providerReceiptId := some receipt }

/-- `completePaidWork` on a row that is done already: an exact replay or nothing. -/
def replayCompletion (db : Db) (current : PaidWorkRow) (leaseOwner leaseToken : String) (usage : UsageInput Int)
    (completedAt : Int) : Except LedgerError (Except LedgerError Completion × Db) := do
  if current.providerReceiptId.isSome ∧ current.providerReceiptId ≠ some usage.providerEventId then
    .error (.conflict "paid work already completed with a different provider receipt")
  else if current.completedLeaseOwner ≠ some leaseOwner ∨ current.completedLeaseToken ≠ some leaseToken then
    .error (.conflict "paid work completion lease does not match the completed claim")
  else
  let (usageAttempt, db) ← attemptUsageInTransaction B db usage (payloadHash B.sha256 usage.payload) completedAt 0
  match usageAttempt with
  | .error e => return (.error e, db)
  | .ok mutation =>
    if current.usageEntrySequence ≠ some mutation.entry.sequence then
      .error (.conflict "paid work already completed with a different usage entry")
    else return (.ok ⟨paidWork current, mutation⟩, db)

/-- `completePaidWork` on a row that is not done. -/
def settleLease (db : Db) (current : PaidWorkRow) (leaseOwner leaseToken : String) (usage : UsageInput Int)
    (completedAt : Int) : Except LedgerError (Except LedgerError Completion × Db) := do
  if current.state ≠ .processing then .error (.error "paid work is not actively leased for completion")
  else if current.leaseOwner ≠ some leaseOwner ∨ current.leaseToken ≠ some leaseToken then
    .error (.conflict "paid work completion lease does not match the active claim")
  else if !current.leaseLive completedAt then .error (.error "paid work lease expired before completion")
  else
  let (usageAttempt, db) ←
    attemptUsageInTransaction B db usage (payloadHash B.sha256 usage.payload) completedAt current.reservedUnits
  match usageAttempt with
  | .error e => return (.error e, db)
  | .ok mutation =>
    let sequence := mutation.entry.sequence
    if current.usageEntrySequence.isSome ∧ current.usageEntrySequence ≠ some sequence then
      .error (.conflict "paid work already completed with a different usage entry")
    else
    let db := db.updateWork
      (fun w => w.id = current.id ∧ w.state = .processing ∧ w.heldBy leaseOwner leaseToken ∧
        w.leaseLive completedAt)
      (·.completed leaseOwner leaseToken sequence usage.providerEventId completedAt) (PaidWorkRow.keeps fun _ => rfl)
    let completed ← theWork db current.id
    if completed.state ≠ .done ∨ completed.usageEntrySequence ≠ some sequence then
      .error (.error "paid work lease changed before completion")
    else return (.ok ⟨paidWork completed, mutation⟩, db)

def completePaidWork (input : CompleteInput) (now : Nat → Int) (db : Db) : Except LedgerError Completion × Db :=
  throwing <| transaction db fun db => do
    let workId ← required input.workId "workId" 512
    let tenantId ← required input.tenantId "tenantId" 512
    match db.workById workId with
    | none => .error (.error "paid work does not exist for tenant")
    | some current =>
      if current.tenantId ≠ tenantId then .error (.error "paid work does not exist for tenant")
      else
      let providerEventId ← required input.providerEventId "providerEventId" 512
      if current.providerEventId ≠ providerEventId then
        .error (.conflict "paid work provider event does not match usage event")
      else
      let leaseOwner ← required input.leaseOwner "leaseOwner" 512
      let leaseToken ← required input.leaseToken "leaseToken" 512
      let completedAt ← timestamp (now 0) "completedAt"
      let usage ← input.usage tenantId current
      if current.state = .done then replayCompletion B db current leaseOwner leaseToken usage completedAt
      else settleLease B db current leaseOwner leaseToken usage completedAt

structure ReceiptInput where
  workId : String
  tenantId : String
  admissionProviderEventId : String
  providerReceiptId : String
  amountUnits : Int
  provider : String
  model : Option String
  costBasis : CostBasis
  tariffVersion : String
  auditReason : String

/-- The usage a durable receipt books for a row. -/
def ReceiptInput.usage (input : ReceiptInput) (tenantId providerReceiptId : String) (current : PaidWorkRow) :
    Except LedgerError (UsageInput Int) := do
  return {
    tenantId := tenantId
    periodId := current.periodId
    amountUnits := ← units input.amountUnits "amountUnits" ⟨false, true⟩
    providerEventId := providerReceiptId
    operation := current.operation
    provider := ← required input.provider "provider" 512
    model := trimmedOrNull input.model
    costBasis := input.costBasis
    idempotencyKey := "usage:" ++ providerReceiptId ++ ":" ++ current.operation
    tariffVersion := ← required input.tariffVersion "tariffVersion" 512
    auditReason := ← required input.auditReason "auditReason" 2000
    occurredAt := current.createdAt }

/-- The row a durable receipt writes: a lease completion recorded before stays. -/
def PaidWorkRow.receipted (w : PaidWorkRow) (sequence : Nat) (receipt : String) (now : Int) : PaidWorkRow :=
  w.completed (w.completedLeaseOwner.getD "durable-receipt") (w.completedLeaseToken.getD ("receipt:" ++ receipt))
    sequence receipt now

/-- `completePaidWorkFromDurableReceipt` once the row and its identities are checked. -/
def settleReceipt (db : Db) (current : PaidWorkRow) (tenantId providerReceiptId : String) (usage : UsageInput Int)
    (acceptedAt : Int) : Except LedgerError (Except LedgerError Completion × Db) := do
  let (usageAttempt, db) ← attemptUsageInTransaction B db usage (payloadHash B.sha256 usage.payload) acceptedAt
    (max current.reservedUnits usage.amountUnits)
  match usageAttempt with
  | .error e => return (.error e, db)
  | .ok mutation =>
    let sequence := mutation.entry.sequence
    if current.state = .done then
      if current.usageEntrySequence ≠ some sequence then
        .error (.conflict "paid work already completed with a different usage entry")
      else return (.ok ⟨paidWork current, mutation⟩, db)
    else
    let db := db.updateWork (fun w => w.id = current.id ∧ w.tenantId = tenantId ∧ w.state ≠ .done)
      (·.receipted sequence providerReceiptId acceptedAt) (PaidWorkRow.keeps fun _ => rfl)
    let completed ← theWork db current.id
    if completed.state ≠ .done ∨ completed.usageEntrySequence ≠ some sequence ∨
        completed.providerReceiptId ≠ some providerReceiptId then
      .error (.error "paid work durable-receipt completion did not commit")
    else return (.ok ⟨paidWork completed, mutation⟩, db)

def completePaidWorkFromDurableReceipt (input : ReceiptInput) (now : Nat → Int) (db : Db) :
    Except LedgerError Completion × Db :=
  throwing <| transaction db fun db => do
    let workId ← required input.workId "workId" 512
    let tenantId ← required input.tenantId "tenantId" 512
    let admissionProviderEventId ← required input.admissionProviderEventId "admissionProviderEventId" 512
    let providerReceiptId ← required input.providerReceiptId "providerReceiptId" 512
    let acceptedAt ← timestamp (now 0) "acceptedAt"
    match db.workById workId with
    | none => .error (.error "paid work does not exist for tenant")
    | some current =>
      if current.tenantId ≠ tenantId then .error (.error "paid work does not exist for tenant")
      else if current.providerEventId ≠ admissionProviderEventId then
        .error (.conflict "paid work provider event does not match durable receipt intent")
      else if current.providerReceiptId.isSome ∧ current.providerReceiptId ≠ some providerReceiptId then
        .error (.conflict "paid work already carries a different provider receipt")
      else
      let usage ← input.usage tenantId providerReceiptId current
      settleReceipt B db current tenantId providerReceiptId usage acceptedAt

end Zenod.Phylax
