/-
The ledger's input checks (`required`, `units`, `timestamp`) and the payload
identity a replay is recognised by (`canonical`, `payloadHash`).

SHA-256 is a parameter: nothing but the equality of two hashes is ever
observed. `canonical` is the source's, on the flat records it is applied to.
-/
import Mathlib.Data.List.Sort
import Zenod.Lib.Js
import Zenod.Phylax.Rows

namespace Zenod.Phylax

def required (value field : String) (max : Nat) : Except LedgerError String :=
  let normalized := Js.trim value
  if normalized = "" then .error (.error (field ++ " is required"))
  else if Js.length normalized > max then
    .error (.error (field ++ " must be at most " ++ toString max ++ " characters"))
  else .ok normalized

structure UnitsOptions where
  positive : Bool
  nonNegative : Bool

def units (value : Int) (field : String) (options : UnitsOptions) : Except LedgerError Int :=
  if !Js.isSafeInteger value then .error (.error (field ++ " must be a safe integer"))
  else if options.positive && value ≤ 0 then .error (.error (field ++ " must be positive"))
  else if options.nonNegative && value < 0 then .error (.error (field ++ " must not be negative"))
  else .ok value

def timestamp (value : Int) (field : String) : Except LedgerError Int :=
  if !Js.isSafeInteger value || value < 0 then
    .error (.error (field ++ " must be a non-negative integer timestamp"))
  else .ok value

/-! ## Payload identity -/

/-- A field of a payload record. -/
inductive JsonValue
  | undefined
  | null
  | num (n : Int)
  | str (s : String)
deriving DecidableEq

/-- The text a field contributes: `JSON.stringify`, which a template string
spells `undefined` when there is no value. -/
def JsonValue.text : JsonValue → List Char
  | .undefined => "undefined".toList
  | .null => "null".toList
  | .num n => (toString n).toList
  | .str s => Js.quote s

def JsonValue.ofOption : Option String → JsonValue
  | none => .null
  | some s => .str s

/-- `canonical` of a record whose fields are no records themselves. -/
def canonical (value : List (String × JsonValue)) : String :=
  let entries := value.insertionSort fun left right => Js.localeLe left.1 right.1 = true
  String.ofList ('{' :: List.intercalate [','] (entries.map fun (key, item) => Js.quote key ++ ':' :: item.text)
    ++ ['}'])

def payloadHash (sha256 : String → String) (value : List (String × JsonValue)) : String :=
  sha256 (canonical value)

def EntryKind.text : EntryKind → String
  | .grant => "grant"
  | .adjustment => "adjustment"
  | .expiry => "expiry"
  | .usage => "usage"
  | .suspend => "suspend"
  | .resume => "resume"

def CostBasis.text : CostBasis → String
  | .actual => "actual"
  | .estimated => "estimated"
  | .serviceIncluded => "service_included"
  | .unavailable => "unavailable"

/-! ## Inputs

`Time` is `Option Int` in a caller's input, where `occurredAt` may be left
out, and `Int` once it is normalised. -/

structure GrantInput (Time : Type) where
  tenantId : String
  periodId : String
  startsAt : Int
  endsAt : Int
  amountUnits : Int
  source : String
  idempotencyKey : String
  tariffVersion : String
  auditReason : String
  occurredAt : Time

structure AdjustInput (Time : Type) where
  tenantId : String
  periodId : String
  amountUnits : Int
  source : String
  idempotencyKey : String
  tariffVersion : String
  auditReason : String
  occurredAt : Time

structure UsageInput (Time : Type) where
  tenantId : String
  periodId : String
  amountUnits : Int
  providerEventId : String
  operation : String
  provider : String
  model : Option String
  costBasis : CostBasis
  idempotencyKey : String
  tariffVersion : String
  auditReason : String
  occurredAt : Time
deriving DecidableEq

structure ControlInput (Time : Type) where
  tenantId : String
  source : String
  idempotencyKey : String
  auditReason : String
  occurredAt : Time

structure AdmitInput (Time : Type) where
  tenantId : String
  periodId : String
  idempotencyKey : String
  providerEventId : String
  operation : String
  custodyRef : String
  estimatedUnits : Int
  capturedAt : Time

/-- `value?.trim() || null`. -/
def trimmedOrNull (value : Option String) : Option String :=
  match value with
  | none => none
  | some s => if Js.trim s = "" then none else some (Js.trim s)

def GrantInput.normalize (input : GrantInput (Option Int)) (now : Int) : Except LedgerError (GrantInput Int) := do
  return {
    tenantId := ← required input.tenantId "tenantId" 512
    periodId := ← required input.periodId "periodId" 512
    startsAt := ← timestamp input.startsAt "startsAt"
    endsAt := ← timestamp input.endsAt "endsAt"
    amountUnits := ← units input.amountUnits "amountUnits" ⟨true, false⟩
    source := ← required input.source "source" 512
    idempotencyKey := ← required input.idempotencyKey "idempotencyKey" 512
    tariffVersion := ← required input.tariffVersion "tariffVersion" 512
    auditReason := ← required input.auditReason "auditReason" 2000
    occurredAt := ← timestamp (input.occurredAt.getD now) "occurredAt" }

def AdjustInput.normalize (input : AdjustInput (Option Int)) (now : Int) :
    Except LedgerError (AdjustInput Int) := do
  return {
    tenantId := ← required input.tenantId "tenantId" 512
    periodId := ← required input.periodId "periodId" 512
    amountUnits := ← units input.amountUnits "amountUnits" ⟨false, false⟩
    source := ← required input.source "source" 512
    idempotencyKey := ← required input.idempotencyKey "idempotencyKey" 512
    tariffVersion := ← required input.tariffVersion "tariffVersion" 512
    auditReason := ← required input.auditReason "auditReason" 2000
    occurredAt := ← timestamp (input.occurredAt.getD now) "occurredAt" }

def UsageInput.normalize (input : UsageInput (Option Int)) (acceptedAt : Int) :
    Except LedgerError (UsageInput Int) := do
  return {
    tenantId := ← required input.tenantId "tenantId" 512
    periodId := ← required input.periodId "periodId" 512
    amountUnits := ← units input.amountUnits "amountUnits" ⟨false, true⟩
    providerEventId := ← required input.providerEventId "providerEventId" 512
    operation := ← required input.operation "operation" 512
    provider := ← required input.provider "provider" 512
    model := trimmedOrNull input.model
    costBasis := input.costBasis
    idempotencyKey := ← required input.idempotencyKey "idempotencyKey" 512
    tariffVersion := ← required input.tariffVersion "tariffVersion" 512
    auditReason := ← required input.auditReason "auditReason" 2000
    occurredAt := ← timestamp (input.occurredAt.getD acceptedAt) "occurredAt" }

def ControlInput.normalize (input : ControlInput (Option Int)) (now : Int) :
    Except LedgerError (ControlInput Int) := do
  return {
    tenantId := ← required input.tenantId "tenantId" 512
    source := ← required input.source "source" 512
    idempotencyKey := ← required input.idempotencyKey "idempotencyKey" 512
    auditReason := ← required input.auditReason "auditReason" 2000
    occurredAt := ← timestamp (input.occurredAt.getD now) "occurredAt" }

def AdmitInput.normalize (input : AdmitInput (Option Int)) (now : Int) : Except LedgerError (AdmitInput Int) := do
  return {
    tenantId := ← required input.tenantId "tenantId" 512
    periodId := ← required input.periodId "periodId" 512
    idempotencyKey := ← required input.idempotencyKey "idempotencyKey" 512
    providerEventId := ← required input.providerEventId "providerEventId" 512
    operation := ← required input.operation "operation" 512
    custodyRef := ← required input.custodyRef "custodyRef" 4096
    estimatedUnits := ← units input.estimatedUnits "estimatedUnits" ⟨false, true⟩
    capturedAt := ← timestamp (input.capturedAt.getD now) "capturedAt" }

/-! ## The payload of each input: all of it but the key and the time -/

def GrantInput.payload (n : GrantInput Int) : List (String × JsonValue) :=
  [("tenantId", .str n.tenantId), ("periodId", .str n.periodId), ("startsAt", .num n.startsAt),
    ("endsAt", .num n.endsAt), ("amountUnits", .num n.amountUnits), ("source", .str n.source),
    ("idempotencyKey", .undefined), ("tariffVersion", .str n.tariffVersion),
    ("auditReason", .str n.auditReason), ("occurredAt", .undefined)]

def AdjustInput.payload (n : AdjustInput Int) : List (String × JsonValue) :=
  [("tenantId", .str n.tenantId), ("periodId", .str n.periodId), ("amountUnits", .num n.amountUnits),
    ("source", .str n.source), ("idempotencyKey", .undefined), ("tariffVersion", .str n.tariffVersion),
    ("auditReason", .str n.auditReason), ("occurredAt", .undefined)]

def UsageInput.payload (n : UsageInput Int) : List (String × JsonValue) :=
  [("tenantId", .str n.tenantId), ("periodId", .str n.periodId), ("amountUnits", .num (-n.amountUnits)),
    ("providerEventId", .str n.providerEventId), ("operation", .str n.operation), ("provider", .str n.provider),
    ("model", .ofOption n.model), ("costBasis", .str n.costBasis.text), ("idempotencyKey", .undefined),
    ("tariffVersion", .str n.tariffVersion), ("auditReason", .str n.auditReason), ("occurredAt", .undefined)]

def ControlInput.payload (n : ControlInput Int) (kind : EntryKind) : List (String × JsonValue) :=
  [("tenantId", .str n.tenantId), ("source", .str n.source), ("idempotencyKey", .undefined),
    ("auditReason", .str n.auditReason), ("occurredAt", .undefined), ("kind", .str kind.text)]

def AdmitInput.payload (n : AdmitInput Int) : List (String × JsonValue) :=
  [("tenantId", .str n.tenantId), ("periodId", .str n.periodId), ("idempotencyKey", .undefined),
    ("providerEventId", .str n.providerEventId), ("operation", .str n.operation),
    ("custodyRef", .str n.custodyRef), ("estimatedUnits", .num n.estimatedUnits), ("capturedAt", .undefined)]

/-- The payload of the expiry entry the sweep books. -/
def expiryPayload (tenantId periodId : String) (reclaimable : Int) : List (String × JsonValue) :=
  [("tenantId", .str tenantId), ("periodId", .str periodId), ("amountUnits", .num (-reclaimable)),
    ("kind", .str "expiry")]

end Zenod.Phylax
