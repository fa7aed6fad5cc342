/-
The rows of the allowance ledger's database (`phylaxAllowanceLedger.ts`):
periods, the append-only entries, the per-period totals a trigger maintains
and the paid-work queue, each with the UNIQUE constraints its table declares.

SQL NULL is `none`. Units, sequence numbers and times are integers; the code
checks every number it is given with `Number.isSafeInteger`, which a fraction
fails too, so an input is an `Int` here.
-/
import Zenod.Lib.Table

namespace Zenod.Phylax

inductive EntryKind | grant | adjustment | expiry | usage | suspend | resume
deriving DecidableEq, Repr

/-- `PhylaxUsageCostBasis`. -/
inductive CostBasis | actual | estimated | serviceIncluded | unavailable
deriving DecidableEq, Repr

inductive PaidWorkState | captured | ready | paused | processing | done | cancelled
deriving DecidableEq, Repr

inductive PauseReason | insufficientAllowance | suspended | periodInactive
deriving DecidableEq, Repr

/-- What the ledger throws: an `Error`, a `PhylaxLedgerConflictError`, or
SQLite's refusal of a row that breaks a constraint. -/
inductive LedgerError
  | error (message : String)
  | conflict (message : String)
  | constraint (message : String)
deriving DecidableEq, Repr

structure PeriodRow where
  tenantId : String
  periodId : String
  startsAt : Int
  endsAt : Int
  createdAt : Int
deriving DecidableEq, Repr

structure EntryRow where
  sequence : Nat
  tenantId : String
  periodId : Option String
  kind : EntryKind
  amountUnits : Int
  source : String
  idempotencyKey : String
  payloadHash : String
  tariffVersion : String
  auditReason : String
  providerEventId : Option String
  operation : Option String
  provider : Option String
  model : Option String
  costBasis : Option CostBasis
  occurredAt : Int
  createdAt : Int
deriving DecidableEq, Repr

/-- A row of `phylax_allowance_period_totals`. -/
structure TotalsRow where
  tenantId : String
  periodId : String
  balanceUnits : Int
  allocatedUnits : Int
  usedUnits : Int
deriving DecidableEq, Repr

structure PaidWorkRow where
  id : String
  tenantId : String
  periodId : String
  idempotencyKey : String
  payloadHash : String
  providerEventId : String
  operation : String
  custodyRef : String
  estimatedUnits : Int
  reservedUnits : Int
  state : PaidWorkState
  pauseReason : Option PauseReason
  leaseOwner : Option String
  leaseToken : Option String
  leaseUntil : Option Int
  completedLeaseOwner : Option String
  completedLeaseToken : Option String
  usageEntrySequence : Option Nat
  providerReceiptId : Option String
  cancellationRequestedAt : Option Int
  createdAt : Int
  updatedAt : Int
deriving DecidableEq, Repr

/-! ## Constraints -/

theorem beq_swap {α : Type} [BEq α] [LawfulBEq α] (a b : α) : (a == b) = (b == a) := by
  by_cases h : a = b
  · subst h; rfl
  · rw [beq_eq_false_iff_ne.2 h, beq_eq_false_iff_ne.2 (Ne.symm h)]

/-- `PRIMARY KEY (tenant_id, period_id)`. -/
instance : Keyed PeriodRow where
  clash a b := a.tenantId == b.tenantId && a.periodId == b.periodId
  clash_symm a b := by rw [beq_swap a.tenantId, beq_swap a.periodId]

instance : Keyed TotalsRow where
  clash a b := a.tenantId == b.tenantId && a.periodId == b.periodId
  clash_symm a b := by rw [beq_swap a.tenantId, beq_swap a.periodId]

/-- The columns of the partial index `phylax_allowance_usage_event`, for the
rows it covers: usage with a provider event and an operation. -/
def EntryRow.usageEvent (e : EntryRow) : Option (String × String) :=
  if e.kind = .usage then
    match e.providerEventId, e.operation with
    | some event, some operation => some (event, operation)
    | _, _ => none
  else none

/-- The sequence, `UNIQUE (tenant_id, idempotency_key)` and the partial index
on a tenant's usage events. -/
instance : Keyed EntryRow where
  clash a b := a.sequence == b.sequence ||
    a.tenantId == b.tenantId &&
      (a.idempotencyKey == b.idempotencyKey || a.usageEvent.isSome && a.usageEvent == b.usageEvent)
  clash_symm a b := by
    rw [beq_swap a.sequence, beq_swap a.tenantId, beq_swap a.idempotencyKey, beq_swap a.usageEvent]
    by_cases h : b.usageEvent = a.usageEvent
    · rw [h]
    · rw [beq_eq_false_iff_ne.2 h, Bool.and_false, Bool.and_false]

/-- `id`, `UNIQUE (tenant_id, idempotency_key)` and
`UNIQUE (tenant_id, provider_event_id, operation)`. -/
instance : Keyed PaidWorkRow where
  clash a b := a.id == b.id ||
    a.tenantId == b.tenantId &&
      (a.idempotencyKey == b.idempotencyKey || a.providerEventId == b.providerEventId && a.operation == b.operation)
  clash_symm a b := by
    rw [beq_swap a.id, beq_swap a.tenantId, beq_swap a.idempotencyKey, beq_swap a.providerEventId,
      beq_swap a.operation]

/-- The columns the constraints are about. -/
def PaidWorkRow.identity (w : PaidWorkRow) : String × String × String × String × String :=
  (w.id, w.tenantId, w.idempotencyKey, w.providerEventId, w.operation)

theorem PaidWorkRow.keeps {f : PaidWorkRow → PaidWorkRow} (h : ∀ w, (f w).identity = w.identity) :
    ∀ r s, Keyed.clash (f r) s = Keyed.clash r s := by
  intro r s
  have := h r
  simp only [identity, Prod.mk.injEq] at this
  obtain ⟨h₁, h₂, h₃, h₄, h₅⟩ := this
  simp only [Keyed.clash, h₁, h₂, h₃, h₄, h₅]

theorem TotalsRow.keeps {f : TotalsRow → TotalsRow}
    (h : ∀ t, (f t).tenantId = t.tenantId ∧ (f t).periodId = t.periodId) :
    ∀ r s, Keyed.clash (f r) s = Keyed.clash r s := by
  intro r s
  simp only [Keyed.clash, (h r).1, (h r).2]

/-- The database. `lastSequence` is SQLite's AUTOINCREMENT counter of the entries. -/
structure Db where
  periods : Table PeriodRow
  entries : Table EntryRow
  totals : Table TotalsRow
  work : Table PaidWorkRow
  lastSequence : Nat
deriving DecidableEq

/-- The tables as a first open creates them. -/
def Db.empty : Db := ⟨.empty, .empty, .empty, .empty, 0⟩

end Zenod.Phylax
