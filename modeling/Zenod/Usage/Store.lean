/-
The usage ledger of a unit (`usage.ts`): one row for an event, a running total
for each tenant and kind, and a daily rollup of the rows that retention has
pruned. A process opens the ledger in several transactions, between which other
processes come; what is left of its opening is a frame.
-/
import Mathlib.Data.Rat.Floor
import Zenod.Lib.Interleave
import Zenod.Lib.Rollup
import Zenod.Lib.Text

namespace Zenod.Usage

open Keyed Text

def dayMs : Int := 86400000

def backfillChunkRows : Nat := 50000

/-- How many events, and their units. -/
@[ext] structure Tally where
  events : Int
  units : Int
deriving DecidableEq

instance : Add Tally := ⟨fun a b => ⟨a.events + b.events, a.units + b.units⟩⟩

instance : Zero Tally := ⟨⟨0, 0⟩⟩

instance : AddCommMonoid Tally where
  add_assoc a b c := Tally.ext (add_assoc _ _ _) (add_assoc _ _ _)
  zero_add a := Tally.ext (zero_add _) (zero_add _)
  add_zero a := Tally.ext (add_zero _) (add_zero _)
  add_comm a b := Tally.ext (add_comm _ _) (add_comm _ _)
  nsmul := nsmulRec

/-- A row of `tenant_usage`. -/
structure UsageRow where
  id : Nat
  tenantId : Text
  ts : Int
  kind : Text
  units : Int
  metadataJson : Option Text
deriving DecidableEq

instance : Keyed UsageRow where
  clash a b := a.id == b.id
  clash_symm _ _ := BEq.comm

namespace UsageRow

def tally (r : UsageRow) : Tally := ⟨1, r.units⟩

/-- `ts / 86400000`: the division of integers drops what is left. -/
def day (r : UsageRow) : Int := r.ts.tdiv dayMs

/-- What the row adds to `tenant_usage_totals`. -/
def total (r : UsageRow) : Amount (Text × Text) Tally := ⟨(r.tenantId, r.kind), r.tally⟩

/-- What the row adds to `tenant_usage_daily`. -/
def daily (r : UsageRow) : Amount (Text × Int × Text) Tally := ⟨(r.tenantId, r.day, r.kind), r.tally⟩

end UsageRow

structure UsageDb where
  usage : Table UsageRow := .empty
  /-- The largest id AUTOINCREMENT has handed out. -/
  sequence : Nat := 0
  totals : Rollup (Text × Text) Tally := .empty
  daily : Rollup (Text × Int × Text) Tally := .empty
  /-- `usage_meta` under totals_watermark. -/
  watermark : Option Nat := none
deriving DecidableEq

/-! ## What a caller hands in -/

inductive UsageError | tenantId | kind | units | timestamp | quota
deriving DecidableEq

def UsageError.message : UsageError → Text
  | .tenantId => "tenant id is required for usage metering".toList
  | .kind =>
    "usage kind must be 1-128 chars of A-Z, a-z, 0-9, _, ., :, or - and cannot start with punctuation".toList
  | .units => "usage units must be a positive integer".toList
  | .timestamp => "usage timestamp must be a non-negative finite number".toList
  | .quota => "tenant quota must be a non-negative finite number".toList

def isKindChar (c : Char) : Bool := c.isAlphanum || c ∈ ['_', '.', ':', '-']

/-- `EVENT_KIND_RE`. -/
def isEventKind : Text → Bool
  | [] => false
  | c :: rest => c.isAlphanum && rest.length ≤ 127 && rest.all isKindChar

def normalizeTenantId (id : Text) : Except UsageError Text :=
  if trim id = [] then .error .tenantId else .ok (trim id)

def normalizeKind (kind : Text) : Except UsageError Text :=
  if isEventKind (trim kind) then .ok (trim kind) else .error .kind

def normalizeUnits (units : Rat) : Except UsageError Int :=
  if units.den = 1 ∧ 0 < units then .ok units.num else .error .units

def normalizeTimestamp (value : Rat) : Except UsageError Int :=
  if value < 0 then .error .timestamp else .ok ⌊value⌋

def normalizeQuota : Option Rat → Except UsageError (Option Int)
  | none => .ok none
  | some value => if value < 0 then .error .quota else .ok (some ⌊value⌋)

structure UsageRecordInput where
  tenantId : Text
  kind : Option Text := none
  units : Option Rat := none
  time : Option Rat := none
  /-- The JSON text of the metadata. -/
  metadata : Option Text := none

def defaultRequestKind : Text := "mcp.request".toList

namespace UsageDb

/-! ## Record -/

def nextId (db : UsageDb) : Nat := (db.usage.rows.map (·.id)).foldl max db.sequence + 1

/-- The transaction of `record`: the id of the row is new, so it is put in. -/
def insert (db : UsageDb) (r : UsageRow) : UsageDb where
  usage := (db.usage.insert? r).getD db.usage
  sequence := r.id
  totals := db.totals.add r.total
  daily := db.daily
  watermark := some r.id

def record (db : UsageDb) (input : UsageRecordInput) (now : Rat) : Except UsageError (UsageRow × UsageDb) := do
  let tenantId ← normalizeTenantId input.tenantId
  let kind ← normalizeKind (input.kind.getD defaultRequestKind)
  let units ← normalizeUnits (input.units.getD 1)
  let ts ← normalizeTimestamp (input.time.getD now)
  let row := { id := db.nextId, tenantId := tenantId, ts := ts, kind := kind, units := units, metadataJson := input.metadata }
  return (row, db.insert row)

/-! ## Prune -/

/-- The cutoff of `pruneOnce`, a UTC day boundary. -/
def cutoffTs (now retentionMs : Rat) : Int := ⌊(now - retentionMs) / dayMs⌋ * dayMs

/-- The rows of one batch: counted in the totals, and older than the cutoff. -/
def batch (db : UsageDb) (cutoff : Int) (limit : Nat) : List UsageRow :=
  ((db.usage.rows.filter fun r => r.ts < cutoff && r.id ≤ db.watermark.getD 0).insertionSort fun a b =>
    a.ts < b.ts ∨ a.ts = b.ts ∧ a.id ≤ b.id).take limit

/-- One bounded prune transaction, and the number of raw rows moved into the daily rollup. -/
def pruneBatch (db : UsageDb) (cutoff : Int) (limit : Nat) : Nat × UsageDb :=
  let rows := db.batch cutoff limit
  if rows = [] then (0, db)
  else
    let ids := rows.map (·.id)
    (rows.length, { db with
      usage := db.usage.delete fun r => ids.contains r.id
      daily := db.daily.addAll (Rollup.group ((db.usage.rows.filter fun r => ids.contains r.id).map (·.daily))).rows })

/-! ## Open -/

/-- The transaction that starts the totals over. -/
def reset (db : UsageDb) : UsageDb := { db with totals := .empty, watermark := some 0 }

/-- The last id of the next chunk, read outside a transaction. -/
def bound (db : UsageDb) (watermark : Nat) : Option Nat :=
  ((((db.usage.rows.map (·.id)).filter (watermark < ·)).insertionSort (· ≤ ·)).take backfillChunkRows).getLast?

/-- The transaction that adds a chunk to the totals. -/
def backfill (db : UsageDb) (watermark hi : Nat) : UsageDb :=
  let current := db.watermark.getD 0
  if current < hi then
    { db with
      totals := db.totals.addAll (Rollup.group ((db.usage.rows.filter fun r =>
        max current watermark < r.id && r.id ≤ hi).map (·.total))).rows
      watermark := some hi }
  else db

end UsageDb

/-! ## Queries -/

structure UsageBucket where
  kind : Text
  events : Int
  units : Int
deriving DecidableEq

/-- `SUM(events)` and `SUM(units)`. -/
def sumOf {K : Type} (amounts : List (Amount K Tally)) : Tally := (amounts.map (·.value)).sum

def UsageBucket.of (a : Amount Text Tally) : UsageBucket := ⟨a.key, a.value.events, a.value.units⟩

structure TenantUsageSummary where
  tenantId : Text
  since : Int
  events : Int
  units : Int
  byKind : List UsageBucket
deriving DecidableEq

structure QuotaDecision where
  allowed : Bool
  quota : Option Int
  used : Option Int
  requested : Int
  remaining : Option Int
deriving DecidableEq

/-- `ORDER BY` on text: by code points. -/
def codeLe : Text → Text → Bool
  | [], _ => true
  | _ :: _, [] => false
  | c :: s, d :: t => c.toNat < d.toNat || (c == d && codeLe s t)

namespace UsageDb

/-- The all-time buckets of a tenant, from the running totals. -/
def totalBuckets (db : UsageDb) (tenantId : Text) : List (Amount Text Tally) :=
  (Rollup.rekey (·.2) (db.totals.rows.filter fun a => a.key.1 = tenantId)).insertionSort fun a b => codeLe a.key b.key

/-- The raw rows of a query. -/
def rawRows (db : UsageDb) (tenantId : Text) (since : Int) (kind : Option Text) : List UsageRow :=
  db.usage.rows.filter fun r => r.tenantId = tenantId && since ≤ r.ts && kind.all (r.kind = ·)

def rawBuckets (db : UsageDb) (tenantId : Text) (since : Int) (kind : Option Text) : List (Amount Text Tally) :=
  (Rollup.group ((db.rawRows tenantId since kind).map fun r => ⟨r.kind, r.tally⟩)).rows.insertionSort fun a b =>
    codeLe a.key b.key

/-- The rolled-up days of a query, the day of `since` included. -/
def dailyBuckets (db : UsageDb) (tenantId : Text) (since : Int) (kind : Option Text) : List (Amount Text Tally) :=
  (Rollup.group (Rollup.rekey (·.2.2) (db.daily.rows.filter fun a =>
    a.key.1 = tenantId && since / dayMs ≤ a.key.2.1 && kind.all (a.key.2.2 = ·)))).rows

/-- The buckets of both, by kind. -/
def mergedBuckets (db : UsageDb) (tenantId : Text) (since : Int) (kind : Option Text) : List (Amount Text Tally) :=
  (Rollup.group (db.rawBuckets tenantId since kind ++ db.dailyBuckets tenantId since kind)).rows.insertionSort fun a b =>
    le a.key b.key

/-- The summary of the raw rows and the rolled-up days. -/
def summaryOf (db : UsageDb) (tenantId : Text) (since : Int) (kind : Option Text) : TenantUsageSummary :=
  let totals := ((db.rawRows tenantId since kind).map (·.tally)).sum
  let daily := sumOf (db.dailyBuckets tenantId since kind)
  { tenantId := tenantId, since := since
    events := totals.events + daily.events
    units := totals.units + daily.units
    byKind := (db.mergedBuckets tenantId since kind).map .of }

/-- The summary of the running totals. -/
def totalSummary (db : UsageDb) (tenantId : Text) : TenantUsageSummary :=
  let buckets := db.totalBuckets tenantId
  { tenantId := tenantId, since := 0
    events := (sumOf buckets).events
    units := (sumOf buckets).units
    byKind := buckets.map .of }

/-- `summary`; an empty kind is none. -/
def summary (db : UsageDb) (tenantId : Text) (since : Option Rat) (kind : Option Text) : Except UsageError TenantUsageSummary := do
  let tenantId ← normalizeTenantId tenantId
  let since ← normalizeTimestamp (since.getD 0)
  let kind ← match kind.filter (· ≠ []) with
    | none => pure none
    | some kind => some <$> normalizeKind kind
  if kind = none ∧ since = 0 then return db.totalSummary tenantId
  else return db.summaryOf tenantId since kind

/-- All-time units for a tenant. -/
def totalUnits (db : UsageDb) (tenantId : Text) : Except UsageError Int := do
  let tenantId ← normalizeTenantId tenantId
  return (sumOf (db.totals.rows.filter fun a => a.key.1 = tenantId)).units

def checkQuota (db : UsageDb) (tenantId : Text) (quota : Option Rat) (requestedUnits : Rat) : Except UsageError QuotaDecision := do
  let requested ← normalizeUnits requestedUnits
  match ← normalizeQuota quota with
  | none => return { allowed := true, quota := none, used := none, requested := requested, remaining := none }
  | some quota =>
    let used ← db.totalUnits tenantId
    let remaining := max (quota - used) 0
    return { allowed := requested ≤ remaining, quota := some quota, used := some used, requested := requested, remaining := some remaining }

end UsageDb

end Zenod.Usage
