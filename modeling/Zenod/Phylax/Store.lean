/-
The statements the ledger runs against its database, under the names of the
methods that hold them, and the two ways a ledger may account for a period:
`hotPath`, what the code does (the totals a trigger maintains, a sweep of the
periods that can still change), and `reference`, the plain ledger it stands in
for (sums over all entries, a sweep of every ended period).
-/
import Zenod.Phylax.Payload

namespace Zenod.Phylax

/-! ## Rows -/

/-- The SET list most paid-work updates share: a state, no reservation, no lease. -/
def PaidWorkRow.unleased (w : PaidWorkRow) (state : PaidWorkState) (reason : Option PauseReason) (now : Int) :
    PaidWorkRow :=
  { w with
    state := state, pauseReason := reason, reservedUnits := 0,
    leaseOwner := none, leaseToken := none, leaseUntil := none, updatedAt := now }

/-- `state IN ('captured', 'ready')`. -/
def PaidWorkRow.isOpen (w : PaidWorkRow) : Bool := w.state = .captured ∨ w.state = .ready

/-- `state IN ('ready', 'processing')`. -/
def PaidWorkRow.holdsUnits (w : PaidWorkRow) : Bool := w.state = .ready ∨ w.state = .processing

/-- The row belongs to the period. -/
def PaidWorkRow.isIn (w : PaidWorkRow) (tenantId periodId : String) : Bool :=
  w.tenantId = tenantId ∧ w.periodId = periodId

def EntryRow.isIn (e : EntryRow) (tenantId periodId : String) : Bool :=
  e.tenantId = tenantId ∧ e.periodId = some periodId

namespace Db

variable (db : Db)

def period (tenantId periodId : String) : Option PeriodRow :=
  db.periods.rows.find? fun p => p.tenantId = tenantId ∧ p.periodId = periodId

def entryByIdempotency (tenantId idempotencyKey : String) : Option EntryRow :=
  db.entries.rows.find? fun e => e.tenantId = tenantId ∧ e.idempotencyKey = idempotencyKey

def usageByProviderEvent (tenantId providerEventId operation : String) : Option EntryRow :=
  db.entries.rows.find? fun e => e.tenantId = tenantId ∧ e.usageEvent = some (providerEventId, operation)

def workById (id : String) : Option PaidWorkRow := db.work.rows.find? fun w => w.id = id

def workByIdempotency (tenantId idempotencyKey : String) : Option PaidWorkRow :=
  db.work.rows.find? fun w => w.tenantId = tenantId ∧ w.idempotencyKey = idempotencyKey

def workByProviderEvent (tenantId providerEventId operation : String) : Option PaidWorkRow :=
  db.work.rows.find? fun w =>
    w.tenantId = tenantId ∧ w.providerEventId = providerEventId ∧ w.operation = operation

/-- `COALESCE(MAX(sequence), 0)` over the period's entries. -/
def lastSequenceInPeriod (tenantId periodId : String) : Nat :=
  ((db.entries.rows.filter (·.isIn tenantId periodId)).map (·.sequence)).foldl max 0

def reservedInPeriod (tenantId periodId : String) : Int :=
  db.work.sumBy fun w => if w.isIn tenantId periodId ∧ w.holdsUnits then w.reservedUnits else 0

/-- The units the period's processing work reserves. -/
def processingInPeriod (tenantId periodId : String) : Int :=
  db.work.sumBy fun w => if w.isIn tenantId periodId ∧ w.state = .processing then w.reservedUnits else 0

/-- `ORDER BY sequence DESC LIMIT 1` over the tenant's controls: the entries
stand in the order of their sequence. -/
def latestControl (tenantId : String) : Option EntryRow :=
  db.entries.rows.reverse.find? fun e => e.tenantId = tenantId ∧ (e.kind = .suspend ∨ e.kind = .resume)

def isSuspended (tenantId : String) : Bool :=
  match db.latestControl tenantId with
  | some latest => latest.kind = .suspend
  | none => false

/-- UPDATE phylax_paid_work SET `f` WHERE `p`. -/
def updateWork (p : PaidWorkRow → Bool) (f : PaidWorkRow → PaidWorkRow)
    (hf : ∀ r s, Keyed.clash (f r) s = Keyed.clash r s) : Db :=
  { db with work := db.work.update p f hf }

end Db

/-! ## Entries and the totals trigger -/

/-- What an entry adds to its period's totals. -/
structure PeriodTotals where
  balance : Int
  allocated : Int
  used : Int
deriving DecidableEq

def PeriodTotals.zero : PeriodTotals := ⟨0, 0, 0⟩

def PeriodTotals.add (a b : PeriodTotals) : PeriodTotals :=
  ⟨a.balance + b.balance, a.allocated + b.allocated, a.used + b.used⟩

def EntryRow.totals (e : EntryRow) : PeriodTotals where
  balance := e.amountUnits
  allocated := if e.kind = .grant ∨ e.kind = .adjustment ∨ e.kind = .expiry then e.amountUnits else 0
  used := if e.kind = .usage then -e.amountUnits else 0

/-- Add to a totals row (`DO UPDATE SET`). -/
def TotalsRow.bump (t : TotalsRow) (d : PeriodTotals) : TotalsRow :=
  { t with
    balanceUnits := t.balanceUnits + d.balance, allocatedUnits := t.allocatedUnits + d.allocated,
    usedUnits := t.usedUnits + d.used }

/-- The trigger `phylax_allowance_totals_insert`: INSERT ... ON CONFLICT DO UPDATE. -/
def bumpTotals (totals : Table TotalsRow) (e : EntryRow) : Table TotalsRow :=
  match e.periodId with
  | none => totals
  | some periodId =>
    let row : TotalsRow := ⟨e.tenantId, periodId, e.totals.balance, e.totals.allocated, e.totals.used⟩
    match totals.insert? row with
    | some totals' => totals'
    | none =>
      totals.update (fun t => t.tenantId = e.tenantId ∧ t.periodId = periodId) (·.bump e.totals) (TotalsRow.keeps fun _ => ⟨rfl, rfl⟩)

/-- The columns of an entry but its sequence. -/
structure EntryInput where
  tenantId : String
  periodId : Option String
  kind : EntryKind
  amountUnits : Int
  source : String
  idempotencyKey : String
  hash : String
  tariffVersion : String
  auditReason : String
  providerEventId : Option String
  operation : Option String
  provider : Option String
  model : Option String
  costBasis : Option CostBasis
  occurredAt : Int
  createdAt : Int

def EntryInput.row (input : EntryInput) (sequence : Nat) : EntryRow where
  sequence := sequence
  tenantId := input.tenantId
  periodId := input.periodId
  kind := input.kind
  amountUnits := input.amountUnits
  source := input.source
  idempotencyKey := input.idempotencyKey
  payloadHash := input.hash
  tariffVersion := input.tariffVersion
  auditReason := input.auditReason
  providerEventId := input.providerEventId
  operation := input.operation
  provider := input.provider
  model := input.model
  costBasis := input.costBasis
  occurredAt := input.occurredAt
  createdAt := input.createdAt

def insertEntry (db : Db) (input : EntryInput) : Except LedgerError (EntryRow × Db) :=
  let row := input.row (db.lastSequence + 1)
  match db.entries.insert? row with
  | none => .error (.constraint "UNIQUE constraint failed: phylax_allowance_entries")
  | some entries =>
    .ok (row, { db with
      entries := entries, totals := bumpTotals db.totals row, lastSequence := db.lastSequence + 1 })

/-! ## Two accountings -/

/-- What a ledger is run with: the digest, the reading of a period's totals,
the periods an expiry sweep visits, and the customer percentage
`Math.round(used / allocated * 10_000)`, a double, of used and allocated. -/
structure Backend where
  sha256 : String → String
  basisPoints : Int → Int → Int
  periodTotals : Db → String → String → PeriodTotals
  duePeriods : Db → Int → List PeriodRow

/-- `ORDER BY ends_at, tenant_id, period_id`. -/
def PeriodRow.le (a b : PeriodRow) : Prop :=
  a.endsAt < b.endsAt ∨ a.endsAt = b.endsAt ∧ (a.tenantId < b.tenantId ∨
    a.tenantId = b.tenantId ∧ (a.periodId < b.periodId ∨ a.periodId = b.periodId))

instance (a b : PeriodRow) : Decidable (PeriodRow.le a b) := by unfold PeriodRow.le; infer_instance

/-- Read a totals row. -/
def readTotals (db : Db) (tenantId periodId : String) : PeriodTotals :=
  match db.totals.rows.find? fun t => t.tenantId = tenantId ∧ t.periodId = periodId with
  | some row => ⟨row.balanceUnits, row.allocatedUnits, row.usedUnits⟩
  | none => .zero

/-- The ended periods with a positive total, UNION those with captured or ready work. -/
def changeablePeriods (db : Db) (now : Int) : List PeriodRow :=
  let open₁ := (db.totals.rows.filter fun t => 0 < t.balanceUnits).flatMap fun t =>
    db.periods.rows.filter fun p => p.tenantId = t.tenantId ∧ p.periodId = t.periodId ∧ p.endsAt ≤ now
  let open₂ := (db.work.rows.filter (·.isOpen)).flatMap fun w =>
    db.periods.rows.filter fun p => p.tenantId = w.tenantId ∧ p.periodId = w.periodId ∧ p.endsAt ≤ now
  (open₁ ++ open₂).dedup.insertionSort PeriodRow.le

/-- The ledger as the code has it. -/
def hotPath (sha256 : String → String) (basisPoints : Int → Int → Int) : Backend :=
  ⟨sha256, basisPoints, readTotals, changeablePeriods⟩

/-- The sum of the entries' contributions to a period. -/
def sumTotals (db : Db) (tenantId periodId : String) : PeriodTotals where
  balance := db.entries.sumBy fun e => if e.isIn tenantId periodId then e.totals.balance else 0
  allocated := db.entries.sumBy fun e => if e.isIn tenantId periodId then e.totals.allocated else 0
  used := db.entries.sumBy fun e => if e.isIn tenantId periodId then e.totals.used else 0

/-- Every ended period. -/
def endedPeriods (db : Db) (now : Int) : List PeriodRow :=
  (db.periods.rows.filter fun p => p.endsAt ≤ now).insertionSort PeriodRow.le

/-- The ledger that recomputes everything from the entries. -/
def reference (sha256 : String → String) (basisPoints : Int → Int → Int) : Backend :=
  ⟨sha256, basisPoints, sumTotals, endedPeriods⟩

end Zenod.Phylax
