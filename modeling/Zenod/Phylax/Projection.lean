/-
What the ledger shows of itself: the customer's figures, which read a period's
totals, and the operator's, which sum the entries one by one.
-/
import Mathlib.Data.List.Dedup
import Zenod.Phylax.Ledger

namespace Zenod.Phylax

variable (B : Backend)

/-! ## The customer's projection -/

inductive ProjectionState | active | paused | suspended | unavailable
deriving DecidableEq, Repr

structure CustomerProjection where
  tenantId : String
  periodId : Option String
  state : ProjectionState
  allocatedUnits : Int
  usedUnits : Int
  reservedUnits : Int
  remainingUnits : Int
  usageBasisPoints : Int
  resetsAt : Option Int
deriving DecidableEq

/-- The running period a projection picks: `ORDER BY ends_at, period_id LIMIT 1`,
the rows being one tenant's. -/
def Db.currentPeriod (db : Db) (tenantId : String) (now : Int) : Option PeriodRow :=
  ((db.periods.rows.filter fun p => p.tenantId = tenantId ∧ p.startsAt ≤ now ∧ now < p.endsAt).insertionSort
    PeriodRow.le).head?

def customerProjection (tenantId : String) (at_ : Int) (db : Db) : Except LedgerError CustomerProjection := do
  let tenantId ← required tenantId "tenantId" 512
  let now ← timestamp at_ "at"
  match db.currentPeriod tenantId now with
  | none =>
    return {
      tenantId := tenantId, periodId := none,
      state := if db.isSuspended tenantId then .suspended else .unavailable,
      allocatedUnits := 0, usedUnits := 0, reservedUnits := 0, remainingUnits := 0, usageBasisPoints := 0,
      resetsAt := none }
  | some period =>
    let totals := B.periodTotals db tenantId period.periodId
    let reservedUnits := db.reservedInPeriod tenantId period.periodId
    let remainingUnits := max 0 (totals.allocated - totals.used - reservedUnits)
    return {
      tenantId := tenantId, periodId := some period.periodId,
      state := if db.isSuspended tenantId then .suspended else if remainingUnits ≤ 0 then .paused else .active,
      allocatedUnits := totals.allocated, usedUnits := totals.used, reservedUnits := reservedUnits,
      remainingUnits := remainingUnits,
      usageBasisPoints :=
        if totals.allocated ≤ 0 then (if 0 < totals.used then 10000 else 0)
        else min 10000 (max 0 (B.basisPoints totals.used totals.allocated)),
      resetsAt := some period.endsAt }

/-! ## The operator's projection -/

structure UsageBucket where
  operation : Option String
  provider : Option String
  model : String
  tariffVersion : String
  costBasis : Option CostBasis
  events : Nat
  units : Int
deriving DecidableEq

/-- `GROUP BY operation, provider, model, tariff_version, cost_basis`. -/
def EntryRow.usageGroup (e : EntryRow) : Option String × Option String × Option String × String × Option CostBasis :=
  (e.operation, e.provider, e.model, e.tariffVersion, e.costBasis)

/-- `ORDER BY units DESC, operation, provider, model`; a usage has an operation and a provider. -/
def UsageBucket.le (a b : UsageBucket) : Prop :=
  b.units < a.units ∨ a.units = b.units ∧ (a.operation.getD "" < b.operation.getD "" ∨
    a.operation = b.operation ∧ (a.provider.getD "" < b.provider.getD "" ∨
      a.provider = b.provider ∧ (a.model < b.model ∨ a.model = b.model)))

instance (a b : UsageBucket) : Decidable (UsageBucket.le a b) := by unfold UsageBucket.le; infer_instance

def usageBuckets (rows : List EntryRow) : List UsageBucket :=
  let used := rows.filter (·.kind = .usage)
  ((used.map (·.usageGroup)).dedup.map fun g =>
    let members := used.filter (·.usageGroup = g)
    { operation := g.1, provider := g.2.1, model := g.2.2.1.getD "unknown", tariffVersion := g.2.2.2.1,
      costBasis := g.2.2.2.2, events := members.length,
      units := -(members.map (·.amountUnits)).sum : UsageBucket }).insertionSort UsageBucket.le

structure OperatorProjection where
  tenantId : String
  periodId : Option String
  grantedUnits : Int
  adjustedUnits : Int
  expiredUnits : Int
  usedUnits : Int
  byUsage : List UsageBucket
  entries : List AllowanceEntry
deriving DecidableEq

/-- `rows.filter((row) => row.kind === kind).reduce((sum, row) => sum + row.amount_units, 0)`. -/
def sumOfKind (rows : List EntryRow) (kind : EntryKind) : Int :=
  ((rows.filter (·.kind = kind)).map (·.amountUnits)).sum

/-- The tenant's entries, of one period when it is given, as they stand: in the order of their sequence. -/
def Db.entriesOf (db : Db) (tenantId : String) (periodId : Option String) : List EntryRow :=
  db.entries.rows.filter fun e => e.tenantId = tenantId ∧ (periodId = none ∨ e.periodId = periodId)

def operatorProjection (tenantId : String) (periodId : Option String) (db : Db) :
    Except LedgerError OperatorProjection := do
  let tenantId ← required tenantId "tenantId" 512
  let periodId ← match periodId with
    | some p => if p = "" then pure none else some <$> required p "periodId" 512
    | none => pure none
  let rows := db.entriesOf tenantId periodId
  return {
    tenantId := tenantId, periodId := periodId,
    grantedUnits := sumOfKind rows .grant, adjustedUnits := sumOfKind rows .adjustment,
    expiredUnits := max 0 (-sumOfKind rows .expiry), usedUnits := max 0 (-sumOfKind rows .usage),
    byUsage := usageBuckets rows, entries := rows.map entry }

/-! ## Other reads -/

/-- The receipt a done work carries, under the identity it was admitted with. -/
def paidWorkReceipt (tenantId providerEventId operation : String) (db : Db) : Except LedgerError (Option String) := do
  let tenantId ← required tenantId "tenantId" 512
  let providerEventId ← required providerEventId "providerEventId" 512
  let operation ← required operation "operation" 512
  match db.workByProviderEvent tenantId providerEventId operation with
  | some work => return if work.state = .done then trimmedOrNull work.providerReceiptId else none
  | none => return none

end Zenod.Phylax
