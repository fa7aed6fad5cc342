/-
The status counters of the channel store (`whatsappStore.ts`): the rows of the
messages and of the outbound audit with their statuses, the table that counts
them and its triggers, and the statements by which a store that opens makes
them. Several processes may open the database; one may die at any statement.
-/
import Zenod.Lib.Interleave
import Zenod.Lib.Table
import Zenod.Lib.Text

namespace Zenod.WhatsApp

open Keyed Text

/-- `whatsapp_messages` and `whatsapp_outbound_audit`. -/
inductive Scope | message | outbound
deriving DecidableEq

/-- A row of either: `message_id` and `processing_status`, or `audit_id` and `status`. -/
structure StatusRow where
  id : Text
  status : Text
deriving DecidableEq

instance : Keyed StatusRow where
  clash a b := a.id == b.id
  clash_symm _ _ := BEq.comm

/-- A row of `whatsapp_status_counters`. -/
structure CounterRow where
  scope : Scope
  status : Text
  count : Int
deriving DecidableEq

instance : Keyed CounterRow where
  clash a b := decide (a.scope = b.scope ∧ a.status = b.status)
  clash_symm _ _ := by simp only [eq_comm]

inductive TriggerKind | inserted | updated | deleted
deriving DecidableEq

structure Database where
  rows : Scope → Table StatusRow
  counters : Option (Table CounterRow) := none
  triggers : List (Scope × TriggerKind) := []
  /-- Whether rows that were there when the counters were made are still to be counted. -/
  uncounted : Scope → Bool := fun _ => false
  /-- Whether a constructor has returned. -/
  opened : Bool := false

/-! ## Counters -/

namespace Counters

variable (c : Table CounterRow) (scope : Scope) (status : Text)

def isOf (r : CounterRow) : Bool := r.scope = scope && r.status = status

def increment : Table CounterRow :=
  match c.insert? ⟨scope, status, 1⟩ with
  | some c' => c'
  | none => c.update (isOf scope status) (fun r => { r with count := r.count + 1 }) fun _ _ => rfl

def decrement : Table CounterRow :=
  c.update (isOf scope status) (fun r => { r with count := r.count - 1 }) fun _ _ => rfl

/-- `INSERT OR REPLACE`. -/
def replace (count : Int) : Table CounterRow :=
  ((c.delete (isOf scope status)).insert? ⟨scope, status, count⟩).getD c

/-- `INSERT OR REPLACE ... SELECT ... GROUP BY status`. -/
def backfill (rows : List StatusRow) : Table CounterRow :=
  (rows.map (·.status)).dedup.foldl (fun c status => replace c scope status (rows.countP (·.status = status))) c

end Counters

/-! ## Rows -/

namespace Database

variable (db : Database)

/-- A trigger runs, if it is there. -/
def fire (scope : Scope) (kind : TriggerKind) (f : Table CounterRow → Table CounterRow) : Database :=
  if (scope, kind) ∈ db.triggers then { db with counters := db.counters.map f } else db

end Database

/-- A change of rows, as a statement of an opened store makes it. -/
inductive Write
  | insert (scope : Scope) (row : StatusRow)
  | update (scope : Scope) (p : StatusRow → Bool) (status : StatusRow → Text)
  | delete (scope : Scope) (p : StatusRow → Bool)

/-- What the triggers do for the rows that a statement changes, one after the other. -/
def Database.each (db : Database) (scope : Scope) (kind : TriggerKind)
    (f : StatusRow → Table CounterRow → Table CounterRow) (rows : List StatusRow) : Database :=
  rows.foldl (fun db r => db.fire scope kind (f r)) db

def Write.apply (db : Database) : Write → Database
  | .insert scope row =>
    match (db.rows scope).insert? row with
    | none => db
    | some t =>
      { db with rows := Function.update db.rows scope t }.fire scope .inserted fun c => Counters.increment c scope row.status
  | .update scope p status =>
    { db with
      rows := Function.update db.rows scope
        ((db.rows scope).update p (fun r => { r with status := status r }) fun _ _ => rfl) }.each scope .updated
      (fun r c => Counters.increment (Counters.decrement c scope r.status) scope (status r))
      ((db.rows scope).rows.filter fun r => p r && r.status ≠ status r)
  | .delete scope p =>
    { db with rows := Function.update db.rows scope ((db.rows scope).delete p) }.each scope .deleted
      (fun r c => Counters.decrement c scope r.status) ((db.rows scope).rows.filter p)

/-! ## Opening -/

/-- The statements of `ensureHotPathIndexesAndCounters`, and the recovery behind it. -/
inductive Statement
  | hadCounters
  | createCounters
  | createTrigger (scope : Scope) (kind : TriggerKind)
  | backfill (scope : Scope)
  | recover
deriving DecidableEq

def opening : List Statement :=
  [.hadCounters, .createCounters,
    .createTrigger .message .inserted, .createTrigger .message .updated, .createTrigger .message .deleted,
    .createTrigger .outbound .inserted, .createTrigger .outbound .updated, .createTrigger .outbound .deleted,
    .backfill .message, .backfill .outbound, .recover]

/-- A store that opens: its next statement, and whether it found the counters. -/
structure Opening where
  position : Nat := 0
  had : Bool := false
deriving DecidableEq

/-- A statement of a store that opens; the recovery changes rows in one transaction. -/
def Statement.perform (db : Database) (had : Bool) (recovery : List Write) : Statement → Database × Bool
  | .hadCounters => (db, db.counters.isSome)
  | .createCounters =>
    match db.counters with
    | some _ => (db, had)
    | none => ({ db with counters := some .empty, uncounted := fun scope => (db.rows scope).rows ≠ [] }, had)
  | .createTrigger scope kind => ({ db with triggers := (scope, kind) :: db.triggers }, had)
  | .backfill scope =>
    if had then (db, had)
    else
      ({ db with
          counters := db.counters.map fun c => Counters.backfill c scope (db.rows scope).rows
          uncounted := Function.update db.uncounted scope false }, had)
  | .recover => (recovery.foldl Write.apply db, had)

inductive Call
  | construct
  | write (w : Write)

/-- The calls of the processes that share the database; a process that dies is not resumed. -/
def stores : Interleaving Database Call Opening (List Write) where
  start c db :=
    match c with
    | .construct => (db, some {})
    | .write w => if db.opened then (w.apply db, none) else (db, none)
  resume f recovery db :=
    match opening[f.position]? with
    | none => (db, none)
    | some statement =>
      let r := statement.perform db f.had recovery
      if f.position + 1 = opening.length then ({ r.1 with opened := true }, none)
      else (r.1, some ⟨f.position + 1, r.2⟩)

/-! ## Counts -/

namespace Database

variable (db : Database)

/-- `counters`. -/
def counted (scope : Scope) : List CounterRow :=
  (db.counters.elim [] (·.rows)).filter fun r => r.scope = scope && 0 < r.count

def countMessages : Int := ((db.counted .message).map (·.count)).sum

/-- `countOutboundAudits`; no status, or an empty one, is any. -/
def countOutboundAudits (status : Option Text) : Int :=
  (((db.counted .outbound).filter fun r => status.all fun s => s = [] || r.status = s).map (·.count)).sum

/-- `processingCounts` and `outboundCounts` of the diagnostics. -/
def statusCounts (scope : Scope) : List (Text × Int) := (db.counted scope).map fun r => (r.status, r.count)

end Database

end Zenod.WhatsApp
