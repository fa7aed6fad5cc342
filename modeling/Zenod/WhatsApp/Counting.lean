/-
The counters of an opened store count: their triggers keep what the backfill
made, and the backfill makes it unless the store that began it died.

`counters_count`: whenever a constructor has returned, the counters are the
numbers of rows, provided no store found the counters before the rows that
were there when they were made were counted.
-/
import Zenod.WhatsApp.Counters

namespace Zenod.WhatsApp

open Keyed Text Interleaving

variable {c : Table CounterRow} {scope scope' : Scope} {status status' : Text} {db : Database} {kind : TriggerKind}
  {rows : List StatusRow} {r r' : StatusRow}

/-! ## A counter -/

/-- The counter of a status; one that is not there counts nothing. -/
def value (c : Table CounterRow) (scope : Scope) (status : Text) : Int :=
  ((c.rows.find? (Counters.isOf scope status)).map (·.count)).getD 0

theorem isOf_iff {r : CounterRow} : Counters.isOf scope status r = true ↔ r.scope = scope ∧ r.status = status := by
  unfold Counters.isOf
  rw [Bool.and_eq_true, decide_eq_true_eq, decide_eq_true_eq]

theorem isOf_eq_clash (r : CounterRow) (n : Int) : Counters.isOf scope status r = clash r ⟨scope, status, n⟩ := by
  rw [Bool.eq_iff_iff, isOf_iff]
  exact (decide_eq_true_iff (p := r.scope = scope ∧ r.status = status)).symm

theorem identifies_isOf (scope : Scope) (status : Text) : Table.Identifies (Counters.isOf scope status) := by
  intro a b ha hb
  rw [isOf_iff] at ha hb
  exact decide_eq_true ⟨ha.1.trans hb.1.symm, ha.2.trans hb.2.symm⟩

theorem value_update (f : Int → Int) (hf) : value
    (c.update (Counters.isOf scope status) (fun r => { r with count := f r.count }) hf) scope' status' =
      if scope = scope' ∧ status = status' ∧ (c.rows.find? (Counters.isOf scope' status')).isSome then f (value c scope' status')
      else value c scope' status' := by
  unfold value
  rw [Table.find?_update hf fun r => rfl]
  cases hfind : c.rows.find? (Counters.isOf scope' status') with
  | none => simp
  | some r =>
    have hr := isOf_iff.1 (List.find?_some hfind)
    simp only [Option.map_some, Option.getD_some, Option.isSome_some, and_true]
    by_cases hkey : Counters.isOf scope status r = true
    · have heq := isOf_iff.1 hkey
      rw [if_pos hkey, if_pos ⟨heq.1.symm.trans hr.1, heq.2.symm.trans hr.2⟩]
    · rw [if_neg hkey, if_neg]
      rintro ⟨rfl, rfl⟩
      exact hkey (isOf_iff.2 hr)

theorem value_of_insert? {c' : Table CounterRow} {n : Int} (h : c.insert? ⟨scope, status, n⟩ = some c') :
    value c' scope' status' = if scope = scope' ∧ status = status' then n else value c scope' status' := by
  unfold value
  rw [Table.find?_insert? h]
  by_cases hkey : scope = scope' ∧ status = status'
  · obtain ⟨rfl, rfl⟩ := hkey
    have hnone : c.rows.find? (Counters.isOf scope status) = none := by
      rw [List.find?_eq_none]
      intro r hr
      rw [isOf_eq_clash r n, (Table.insert?_eq_some.1 h).1 r hr]
      decide
    have hself : Counters.isOf scope status ⟨scope, status, n⟩ = true := isOf_iff.2 ⟨rfl, rfl⟩
    rw [hnone, Option.none_or, if_pos hself, if_pos ⟨rfl, rfl⟩]
    rfl
  · rw [if_neg fun h => hkey (isOf_iff.1 h), Option.or_none, if_neg hkey]

theorem value_increment : value (Counters.increment c scope status) scope' status' =
    value c scope' status' + if scope = scope' ∧ status = status' then 1 else 0 := by
  unfold Counters.increment
  split
  · next c' h =>
    rw [value_of_insert? h]
    by_cases hkey : scope = scope' ∧ status = status'
    · obtain ⟨rfl, rfl⟩ := hkey
      have hzero : value c scope status = 0 := by
        unfold value
        rw [List.find?_eq_none.2 fun r hr => ?_]
        · rfl
        · rw [isOf_eq_clash r 1, (Table.insert?_eq_some.1 h).1 r hr]
          decide
      rw [if_pos ⟨rfl, rfl⟩, if_pos ⟨rfl, rfl⟩, hzero]
      rfl
    · rw [if_neg hkey, if_neg hkey, add_zero]
  · next h =>
    rw [value_update (· + 1)]
    by_cases hkey : scope = scope' ∧ status = status'
    · obtain ⟨rfl, rfl⟩ := hkey
      have hsome : (c.rows.find? (Counters.isOf scope status)).isSome = true := by
        by_contra hnone
        rw [Option.not_isSome_iff_eq_none, List.find?_eq_none] at hnone
        have hfree : ∀ r ∈ c.rows, clash r (⟨scope, status, 1⟩ : CounterRow) = false := by
          intro r hr
          rw [← isOf_eq_clash r 1]
          exact Bool.eq_false_iff.2 (hnone r hr)
        obtain ⟨c', hc', -⟩ := Table.insert?_isSome hfree
        rw [hc'] at h
        cases h
      rw [if_pos ⟨rfl, rfl, hsome⟩, if_pos ⟨rfl, rfl⟩]
    · rw [if_neg fun h => hkey ⟨h.1, h.2.1⟩, if_neg hkey, add_zero]

/-- A counter that counts something is there, so it goes down. -/
theorem value_decrement (h : 0 < value c scope status) : value (Counters.decrement c scope status) scope' status' =
    value c scope' status' - if scope = scope' ∧ status = status' then 1 else 0 := by
  unfold Counters.decrement
  rw [value_update (· - 1)]
  by_cases hkey : scope = scope' ∧ status = status'
  · obtain ⟨rfl, rfl⟩ := hkey
    have hsome : (c.rows.find? (Counters.isOf scope status)).isSome = true := by
      by_contra hnone
      rw [Option.not_isSome_iff_eq_none] at hnone
      unfold value at h
      rw [hnone] at h
      exact absurd h (lt_irrefl 0)
    rw [if_pos ⟨rfl, rfl, hsome⟩, if_pos ⟨rfl, rfl⟩]
  · rw [if_neg fun h => hkey ⟨h.1, h.2.1⟩, if_neg hkey, sub_zero]

theorem value_replace (n : Int) : value (Counters.replace c scope status n) scope' status' =
    if scope = scope' ∧ status = status' then n else value c scope' status' := by
  unfold Counters.replace
  have hfree : ∀ r ∈ (c.delete (Counters.isOf scope status)).rows, clash r (⟨scope, status, n⟩ : CounterRow) = false := by
    intro r hr
    have hkept := (List.mem_filter.1 hr).2
    rw [← isOf_eq_clash r n]
    simpa using hkept
  obtain ⟨c', hc', -⟩ := Table.insert?_isSome hfree
  rw [hc', Option.getD_some, value_of_insert? hc']
  split
  · rfl
  · next hkey =>
    unfold value
    congr 2
    show (c.rows.filter _).find? _ = _
    rw [List.find?_filter]
    refine congrArg (fun q => c.rows.find? q) (funext fun r => ?_)
    by_cases hr : Counters.isOf scope' status' r = true
    · have hother : Counters.isOf scope status r = false := by
        rw [Bool.eq_false_iff, ne_eq, isOf_iff]
        rintro ⟨rfl, rfl⟩
        exact hkey (isOf_iff.1 hr)
      simp [hr, hother]
    · simp [hr]

/-! ## Counts -/

/-- The counters of a scope are the numbers of its rows. -/
def Counts (c : Table CounterRow) (scope : Scope) (rows : List StatusRow) : Prop :=
  ∀ status, value c scope status = rows.countP (·.status = status)

theorem Counts.pos (h : Counts c scope rows) (hr : r ∈ rows) : 0 < value c scope r.status := by
  rw [h]
  exact_mod_cast List.countP_pos_iff.2 ⟨r, hr, decide_eq_true rfl⟩

/-- A counter that is not there counts nothing; the others are replaced. -/
theorem value_replaceAll (n : Text → Int) (statuses : List Text) : ∀ c : Table CounterRow,
    value (statuses.foldl (fun c status => Counters.replace c scope status (n status)) c) scope' status' =
      if scope = scope' ∧ status' ∈ statuses then n status' else value c scope' status' := by
  induction statuses with
  | nil => simp
  | cons s statuses ih =>
    intro c
    rw [List.foldl_cons, ih, value_replace]
    by_cases hscope : scope = scope'
    · by_cases hs : s = status'
      · subst hs
        simp [hscope]
      · simp [hscope, hs, Ne.symm hs]
    · simp [hscope]

theorem value_backfill (rows : List StatusRow) : value (Counters.backfill c scope rows) scope' status' =
    if scope = scope' ∧ 0 < rows.countP (·.status = status') then (rows.countP (·.status = status') : Int)
    else value c scope' status' := by
  unfold Counters.backfill
  rw [value_replaceAll fun status => (rows.countP (·.status = status) : Int)]
  simp only [List.mem_dedup, List.mem_map, List.countP_pos_iff, decide_eq_true_eq]

/-- What the backfill makes of counters that count nothing yet. -/
theorem counts_backfill (h : ∀ status, value c scope status = 0) (rows : List StatusRow) :
    Counts (Counters.backfill c scope rows) scope rows := by
  intro status
  rw [value_backfill]
  split
  · rfl
  · next hzero =>
    rw [h status]
    rw [not_and, not_lt, Nat.le_zero] at hzero
    rw [hzero rfl]
    rfl

/-- What the backfill makes of counters that count. -/
theorem Counts.backfill (h : Counts c scope rows) : Counts (Counters.backfill c scope rows) scope rows := by
  intro status
  rw [value_backfill]
  split
  · rfl
  · exact h status

theorem Counts.inserted (h : Counts c scope rows) (r : StatusRow) :
    Counts (Counters.increment c scope r.status) scope (rows ++ [r]) := by
  intro status
  rw [value_increment, h, List.countP_append, List.countP_singleton]
  by_cases hr : r.status = status <;> simp [hr]

theorem Counts.deleted {done rest : List StatusRow} (h : Counts c scope (done ++ r :: rest)) :
    Counts (Counters.decrement c scope r.status) scope (done ++ rest) := by
  intro status
  rw [value_decrement (h.pos (List.mem_append_right _ List.mem_cons_self)), h, List.countP_append, List.countP_append,
    List.countP_cons]
  by_cases hr : r.status = status
  · simp [hr]
    omega
  · simp [hr]

theorem Counts.updated {done rest : List StatusRow} (h : Counts c scope (done ++ r :: rest)) (r' : StatusRow) :
    Counts (Counters.increment (Counters.decrement c scope r.status) scope r'.status) scope (done ++ r' :: rest) := by
  intro status
  rw [value_increment, h.deleted, List.countP_append, List.countP_append, List.countP_cons]
  by_cases hr : r'.status = status
  · simp [hr]
    omega
  · simp [hr]

/-- What is done to the counters of one scope leaves those of the other. -/
structure Counting (c : Table CounterRow) (scope : Scope) (rows : List StatusRow) (other : Scope → List StatusRow) : Prop where
  own : Counts c scope rows
  others : ∀ scope', scope' ≠ scope → Counts c scope' (other scope')

variable {other : Scope → List StatusRow}

theorem Counting.inserted (h : Counting c scope rows other) (r : StatusRow) :
    Counting (Counters.increment c scope r.status) scope (rows ++ [r]) other where
  own := h.own.inserted r
  others scope' hne status := by
    rw [value_increment, if_neg fun h => hne h.1.symm, add_zero, h.others scope' hne]

theorem Counting.deleted {done rest : List StatusRow} (h : Counting c scope (done ++ r :: rest) other) :
    Counting (Counters.decrement c scope r.status) scope (done ++ rest) other where
  own := h.own.deleted
  others scope' hne status := by
    rw [value_decrement (h.own.pos (List.mem_append_right _ List.mem_cons_self)), if_neg fun h => hne h.1.symm, sub_zero,
      h.others scope' hne]

theorem Counting.updated {done rest : List StatusRow} (h : Counting c scope (done ++ r :: rest) other) (r' : StatusRow) :
    Counting (Counters.increment (Counters.decrement c scope r.status) scope r'.status) scope (done ++ r' :: rest) other where
  own := h.own.updated r'
  others scope' hne status := by
    rw [value_increment, if_neg fun h => hne h.1.symm, add_zero, h.deleted.others scope' hne]

/-- The rows of a DELETE go one after the other. -/
theorem Counting.delete (p : StatusRow → Bool) (rest : List StatusRow) : ∀ {done : List StatusRow} {c : Table CounterRow},
    Counting c scope (done ++ rest) other →
    Counting ((rest.filter p).foldl (fun c r => Counters.decrement c scope r.status) c) scope
      (done ++ rest.filter fun r => !p r) other := by
  induction rest with
  | nil => exact fun h => h
  | cons r rest ih =>
    intro done c h
    by_cases hp : p r = true
    · rw [List.filter_cons_of_pos hp, List.foldl_cons, List.filter_cons_of_neg (by simp [hp])]
      exact ih h.deleted
    · rw [List.filter_cons_of_neg hp, List.filter_cons_of_pos (by simpa using hp), List.append_cons]
      rw [List.append_cons] at h
      exact ih h

/-- The rows of an UPDATE change one after the other; those that keep their status are left out by the trigger. -/
theorem Counting.update (p : StatusRow → Bool) (status : StatusRow → Text) (rest : List StatusRow) :
    ∀ {done : List StatusRow} {c : Table CounterRow}, Counting c scope (done ++ rest) other →
    Counting ((rest.filter fun r => p r && r.status ≠ status r).foldl
        (fun c r => Counters.increment (Counters.decrement c scope r.status) scope (status r)) c) scope
      (done ++ rest.map fun r => if p r then { r with status := status r } else r) other := by
  induction rest with
  | nil => exact fun h => h
  | cons r rest ih =>
    intro done c h
    rw [List.map_cons, List.append_cons]
    by_cases hp : p r = true
    · rw [if_pos hp]
      by_cases hs : r.status = status r
      · have hsame : ({ r with status := status r } : StatusRow) = r := by rw [← hs]
        rw [List.filter_cons_of_neg (by simp [hs]), hsame]
        rw [List.append_cons] at h
        exact ih h
      · rw [List.filter_cons_of_pos (by simp [hp, hs]), List.foldl_cons]
        have hnew := h.updated { r with status := status r }
        rw [List.append_cons] at hnew
        exact ih hnew
    · rw [if_neg hp, List.filter_cons_of_neg (by simp [hp])]
      rw [List.append_cons] at h
      exact ih h

/-! ## Writes -/

/-- The counters are there and count, and all triggers are there. -/
structure Ready (db : Database) : Prop where
  counts : ∃ c, db.counters = some c ∧ ∀ scope, Counts c scope (db.rows scope).rows
  triggers : ∀ scope kind, (scope, kind) ∈ db.triggers
  counted : ∀ scope, db.uncounted scope = false

theorem fire_eq (h : (scope, kind) ∈ db.triggers) (hc : db.counters = some c) (f : Table CounterRow → Table CounterRow) :
    db.fire scope kind f = { db with counters := some (f c) } := by
  unfold Database.fire
  rw [if_pos h, hc, Option.map_some]

theorem each_eq (rows : List StatusRow) (f : StatusRow → Table CounterRow → Table CounterRow) :
    ∀ {db : Database} {c : Table CounterRow}, (scope, kind) ∈ db.triggers → db.counters = some c →
    db.each scope kind f rows = { db with counters := some (rows.foldl (fun c r => f r c) c) } := by
  unfold Database.each
  induction rows with
  | nil =>
    intro db c _ hc
    rw [List.foldl_nil, List.foldl_nil, ← hc]
  | cons r rows ih =>
    intro db c h hc
    rw [List.foldl_cons, List.foldl_cons, fire_eq h hc, @ih { db with counters := some (f r c) } (f r c) h rfl]

/-- The rows of one scope changed, and its counters with them. -/
theorem Ready.changed {t : Table StatusRow} (h : Ready db) (hc : Counting c scope t.rows fun scope => (db.rows scope).rows) :
    Ready { db with rows := Function.update db.rows scope t, counters := some c } where
  counts := by
    refine ⟨c, rfl, fun scope' => ?_⟩
    show Counts c scope' ((Function.update db.rows scope t) scope').rows
    by_cases hscope : scope' = scope
    · subst hscope
      rw [Function.update_self]
      exact hc.own
    · rw [Function.update_of_ne hscope]
      exact hc.others scope' hscope
  triggers := h.triggers
  counted := h.counted

/-- **A write** is counted by its triggers. -/
theorem Ready.write (h : Ready db) (w : Write) : Ready (w.apply db) := by
  obtain ⟨c, hc, hcounts⟩ := h.counts
  have hcounting : ∀ scope, Counting c scope (db.rows scope).rows fun scope => (db.rows scope).rows :=
    fun scope => ⟨hcounts scope, fun scope' _ => hcounts scope'⟩
  cases w with
  | insert scope row =>
    cases hinsert : (db.rows scope).insert? row with
    | none =>
      simp only [Write.apply, hinsert]
      exact h
    | some t =>
      have hfire := @fire_eq c scope { db with rows := Function.update db.rows scope t } .inserted (h.triggers scope .inserted) hc
        fun c => Counters.increment c scope row.status
      simp only [Write.apply, hinsert]
      rw [hfire]
      have hnew := (hcounting scope).inserted row
      rw [← (Table.insert?_eq_some.1 hinsert).2] at hnew
      exact h.changed hnew
  | update scope p status =>
    let t := (db.rows scope).update p (fun r => { r with status := status r }) fun _ _ => rfl
    have heach := @each_eq scope .updated ((db.rows scope).rows.filter fun r => p r && r.status ≠ status r)
      (fun r c => Counters.increment (Counters.decrement c scope r.status) scope (status r))
      { db with rows := Function.update db.rows scope t } c (h.triggers scope .updated) hc
    show Ready (Database.each _ scope .updated _ _)
    rw [heach]
    exact h.changed (@Counting.update scope _ p status (db.rows scope).rows [] c (hcounting scope))
  | delete scope p =>
    have heach := @each_eq scope .deleted ((db.rows scope).rows.filter p)
      (fun r c => Counters.decrement c scope r.status)
      { db with rows := Function.update db.rows scope ((db.rows scope).delete p) } c (h.triggers scope .deleted) hc
    show Ready (Database.each _ scope .deleted _ _)
    rw [heach]
    exact h.changed (@Counting.delete scope _ p (db.rows scope).rows [] c (hcounting scope))

theorem Ready.writes (h : Ready db) (ws : List Write) : Ready (ws.foldl Write.apply db) := by
  induction ws generalizing db with
  | nil => exact h
  | cons w ws ih => exact ih (h.write w)

/-- What no write touches. -/
structure Shape (db db' : Database) : Prop where
  triggers : db'.triggers = db.triggers
  uncounted : db'.uncounted = db.uncounted
  opened : db'.opened = db.opened
  counters : db'.counters.isSome = db.counters.isSome

theorem Shape.trans {db₁ db₂ db₃ : Database} (h : Shape db₁ db₂) (h' : Shape db₂ db₃) : Shape db₁ db₃ :=
  ⟨h'.triggers.trans h.triggers, h'.uncounted.trans h.uncounted, h'.opened.trans h.opened, h'.counters.trans h.counters⟩

theorem shape_fire (db : Database) (scope : Scope) (kind : TriggerKind) (f : Table CounterRow → Table CounterRow) :
    Shape db (db.fire scope kind f) := by
  unfold Database.fire
  split
  · exact ⟨rfl, rfl, rfl, Option.isSome_map⟩
  · exact ⟨rfl, rfl, rfl, rfl⟩

theorem shape_each (scope : Scope) (kind : TriggerKind) (f : StatusRow → Table CounterRow → Table CounterRow)
    (rows : List StatusRow) : ∀ db : Database, Shape db (db.each scope kind f rows) := by
  unfold Database.each
  induction rows with
  | nil => exact fun _ => ⟨rfl, rfl, rfl, rfl⟩
  | cons r rows ih => exact fun db => (shape_fire db scope kind (f r)).trans (ih _)

theorem shape_write (db : Database) (w : Write) : Shape db (w.apply db) := by
  have hrows : ∀ rows : Scope → Table StatusRow, Shape db { db with rows := rows } := fun _ => ⟨rfl, rfl, rfl, rfl⟩
  cases w with
  | insert scope row =>
    cases hinsert : (db.rows scope).insert? row with
    | none =>
      simp only [Write.apply, hinsert]
      exact ⟨rfl, rfl, rfl, rfl⟩
    | some t =>
      simp only [Write.apply, hinsert]
      exact (hrows _).trans (shape_fire _ _ _ _)
  | update scope p status => exact (hrows _).trans (shape_each _ _ _ _ _)
  | delete scope p => exact (hrows _).trans (shape_each _ _ _ _ _)

theorem shape_writes (ws : List Write) : ∀ db : Database, Shape db (ws.foldl Write.apply db) := by
  induction ws with
  | nil => exact fun _ => ⟨rfl, rfl, rfl, rfl⟩
  | cons w ws ih => exact fun db => (shape_write db w).trans (ih _)

/-! ## Opening -/

/-- The counters of a scope count, or nothing was counted yet. -/
structure Counted (db : Database) : Prop where
  made : ∀ c, db.counters = some c → ∀ scope, (db.uncounted scope = false → Counts c scope (db.rows scope).rows) ∧
    (db.uncounted scope = true → ∀ status, value c scope status = 0)
  opened : db.opened = true → db.counters.isSome = true ∧ (∀ scope kind, (scope, kind) ∈ db.triggers) ∧
    ∀ scope, db.uncounted scope = false

/-- What a statement of an opening store leaves for those behind it. -/
def Done (db : Database) (had : Bool) : Statement → Prop
  | .hadCounters => had = true → db.counters.isSome = true ∧ ∀ scope, db.uncounted scope = false
  | .createCounters => db.counters.isSome = true
  | .createTrigger scope kind => (scope, kind) ∈ db.triggers
  | .backfill scope => db.counters.isSome = true ∧ db.uncounted scope = false
  | .recover => True

/-- What is done stays done. -/
structure Later (db db' : Database) : Prop where
  counters : db.counters.isSome = true → db'.counters.isSome = true
  triggers : ∀ t ∈ db.triggers, t ∈ db'.triggers
  uncounted : db.counters.isSome = true → ∀ scope, db.uncounted scope = false → db'.uncounted scope = false

theorem Shape.later {db db' : Database} (h : Shape db db') : Later db db' where
  counters hc := h.counters.trans hc
  triggers _ ht := h.triggers ▸ ht
  uncounted _ scope hs := (congrFun h.uncounted scope).trans hs

theorem Done.later {db' : Database} {had : Bool} {statement : Statement} (h : Done db had statement) (hl : Later db db') :
    Done db' had statement := by
  cases statement with
  | hadCounters => exact fun hhad => ⟨hl.counters (h hhad).1, fun scope => hl.uncounted (h hhad).1 scope ((h hhad).2 scope)⟩
  | createCounters => exact hl.counters h
  | createTrigger scope kind => exact hl.triggers _ h
  | backfill scope => exact ⟨hl.counters h.1, hl.uncounted h.1 scope h.2⟩
  | recover => trivial

/-- The statements in front of the next one are done. -/
def Placed (db : Database) (f : Opening) : Prop :=
  ∀ k < f.position, ∀ statement, opening[k]? = some statement → Done db f.had statement

theorem Placed.later {db' : Database} {f : Opening} (h : Placed db f) (hl : Later db db') : Placed db' f :=
  fun k hk statement hs => (h k hk statement hs).later hl

theorem position_eq {k : Nat} {statement : Statement} (h : opening[k]? = some statement) : k = opening.idxOf statement := by
  obtain ⟨hlt, rfl⟩ := List.getElem?_eq_some_iff.1 h
  exact (List.Nodup.idxOf_getElem (by decide) k hlt).symm

theorem Placed.before {f : Opening} {statement : Statement} (h : Placed db f) (hf : opening[f.position]? = some statement)
    (earlier : Statement) (hmem : earlier ∈ opening.take (opening.idxOf statement)) : Done db f.had earlier := by
  obtain ⟨k, hk, hget⟩ := List.getElem_of_mem hmem
  rw [List.length_take, lt_min_iff, ← position_eq hf] at hk
  rw [List.getElem_take] at hget
  exact h k hk.1 earlier (List.getElem?_eq_some_iff.2 ⟨hk.2, hget⟩)

/-- The recovery comes last, with everything in front of it done. -/
theorem Placed.ready {f : Opening} (h : Placed db f) (hcounted : Counted db) (hf : opening[f.position]? = some .recover) :
    Ready db := by
  have hsome : db.counters.isSome = true := h.before hf (.createCounters) (by decide)
  have hscope : ∀ scope, db.uncounted scope = false := by
    intro scope
    cases scope with
    | message => exact (h.before hf (.backfill .message) (by decide)).2
    | outbound => exact (h.before hf (.backfill .outbound) (by decide)).2
  have htriggers : ∀ scope kind, (scope, kind) ∈ db.triggers := by
    intro scope kind
    refine h.before hf (.createTrigger scope kind) ?_
    cases scope <;> cases kind <;> decide
  obtain ⟨c, hc⟩ := Option.isSome_iff_exists.1 hsome
  exact ⟨⟨c, hc, fun scope => (hcounted.made c hc scope).1 (hscope scope)⟩, htriggers, hscope⟩

theorem Ready.isCounted (h : Ready db) : Counted db where
  made c hc scope := by
    obtain ⟨c', hc', hcounts⟩ := h.counts
    rw [hc, Option.some.injEq] at hc'
    subst hc'
    refine ⟨fun _ => hcounts scope, fun htrue => ?_⟩
    rw [h.counted scope] at htrue
    cases htrue
  opened _ := by
    obtain ⟨c, hc, -⟩ := h.counts
    exact ⟨by rw [hc]; rfl, h.triggers, h.counted⟩

theorem Counted.ready (h : Counted db) (hopened : db.opened = true) : Ready db := by
  obtain ⟨hsome, htriggers, hcounted⟩ := h.opened hopened
  obtain ⟨c, hc⟩ := Option.isSome_iff_exists.1 hsome
  exact ⟨⟨c, hc, fun scope => (h.made c hc scope).1 (hcounted scope)⟩, htriggers, hcounted⟩

/-- A store finds the counters only if what was there when they were made is counted. -/
def Found (db : Database) (statement : Statement) : Prop :=
  statement = .hadCounters → db.counters.isSome = true → ∀ scope, db.uncounted scope = false

theorem later_refl (db : Database) : Later db db := ⟨fun h => h, fun _ h => h, fun _ _ h => h⟩

/-- The counters are made, and nothing is counted. -/
theorem counted_create (h : Counted db) (hnone : db.counters = none) :
    Counted { db with counters := some .empty, uncounted := fun scope => decide ((db.rows scope).rows ≠ []) } where
  made c hc scope := by
    obtain rfl := (Option.some.inj hc).symm
    refine ⟨fun hempty status => ?_, fun _ status => rfl⟩
    rw [decide_eq_false_iff_not, not_not] at hempty
    show value .empty scope status = ((db.rows scope).rows.countP _ : Int)
    rw [hempty]
    rfl
  opened hopened := by
    have hsome := (h.opened hopened).1
    rw [hnone] at hsome
    cases hsome

/-- A scope is counted. -/
theorem counted_backfill (h : Counted db) (scope : Scope) : Counted { db with
    counters := db.counters.map fun c => Counters.backfill c scope (db.rows scope).rows
    uncounted := Function.update db.uncounted scope false } where
  made c' hc' scope' := by
    obtain ⟨c, hc, rfl⟩ := Option.map_eq_some_iff.1 hc'
    by_cases hscope : scope' = scope
    · subst hscope
      refine ⟨fun _ => ?_, fun htrue => ?_⟩
      · cases huncounted : db.uncounted scope' with
        | false => exact ((h.made c hc scope').1 huncounted).backfill
        | true => exact counts_backfill ((h.made c hc scope').2 huncounted) _
      · simp only [Function.update_self] at htrue
        cases htrue
    · have hvalue : ∀ status, value (Counters.backfill c scope (db.rows scope).rows) scope' status = value c scope' status :=
        fun status => by rw [value_backfill, if_neg fun h => hscope h.1.symm]
      refine ⟨fun hfalse status => ?_, fun htrue status => ?_⟩
      · simp only [Function.update_of_ne hscope] at hfalse
        rw [hvalue, (h.made c hc scope').1 hfalse status]
      · simp only [Function.update_of_ne hscope] at htrue
        rw [hvalue, (h.made c hc scope').2 htrue status]
  opened hopened := by
    obtain ⟨hsome, htriggers, huncounted⟩ := h.opened hopened
    refine ⟨by rw [Option.isSome_map]; exact hsome, htriggers, fun scope' => ?_⟩
    by_cases hscope : scope' = scope
    · subst hscope
      exact Function.update_self _ _ _
    · exact (Function.update_of_ne hscope _ _).trans (huncounted scope')

/-- What is known behind a statement of an opening store. -/
structure Performed (db : Database) (had : Bool) (statement : Statement) (r : Database × Bool) : Prop where
  counted : Counted r.1
  later : Later db r.1
  done : Done r.1 r.2 statement
  had : statement ≠ .hadCounters → r.2 = had
  ready : statement = .recover → Ready r.1

/-- **A statement of an opening store** keeps the counters, and is done. -/
theorem perform_performed {f : Opening} {statement : Statement} (h : Counted db) (recovery : List Write) (hplaced : Placed db f)
    (hf : opening[f.position]? = some statement) (hfound : Found db statement) :
    Performed db f.had statement (statement.perform db f.had recovery) := by
  cases statement with
  | hadCounters =>
    exact ⟨h, later_refl db, fun hhad => ⟨hhad, hfound rfl hhad⟩, fun hne => absurd rfl hne, fun heq => by cases heq⟩
  | createCounters =>
    unfold Statement.perform
    cases hc : db.counters with
    | some c =>
      refine ⟨h, later_refl db, ?_, fun _ => rfl, fun heq => by cases heq⟩
      show db.counters.isSome = true
      rw [hc]
      rfl
    | none =>
      refine ⟨counted_create h hc, ⟨fun _ => rfl, fun _ ht => ht, fun hsome => ?_⟩, rfl, fun _ => rfl, fun heq => by cases heq⟩
      rw [hc] at hsome
      cases hsome
  | createTrigger scope kind =>
    refine ⟨⟨h.made, fun hopened => ?_⟩, ⟨fun hc => hc, fun _ ht => List.mem_cons_of_mem _ ht, fun _ _ hs => hs⟩,
      List.mem_cons_self, fun _ => rfl, fun heq => by cases heq⟩
    obtain ⟨hsome, htriggers, huncounted⟩ := h.opened hopened
    exact ⟨hsome, fun scope kind => List.mem_cons_of_mem _ (htriggers scope kind), huncounted⟩
  | backfill scope =>
    have hsome : db.counters.isSome = true := hplaced.before hf .createCounters (by cases scope <;> decide)
    have hprobe : Done db f.had .hadCounters := hplaced.before hf .hadCounters (by cases scope <;> decide)
    cases hhad : f.had with
    | true => exact ⟨h, later_refl db, ⟨hsome, (hprobe hhad).2 scope⟩, fun _ => rfl, fun heq => by cases heq⟩
    | false =>
      refine ⟨counted_backfill h scope, ⟨fun hc => ?_, fun _ ht => ht, fun _ scope' hs => ?_⟩, ⟨?_, ?_⟩, fun _ => rfl,
        fun heq => by cases heq⟩
      · exact Option.isSome_map.trans hc
      · show Function.update db.uncounted scope false scope' = false
        by_cases hscope : scope' = scope
        · subst hscope
          exact Function.update_self _ _ _
        · exact (Function.update_of_ne hscope _ _).trans hs
      · exact Option.isSome_map.trans hsome
      · exact Function.update_self _ _ _
  | recover =>
    have hready := (hplaced.ready h hf).writes recovery
    exact ⟨hready.isCounted, (shape_writes recovery db).later, trivial, fun _ => rfl, fun _ => hready⟩

/-! ## Runs -/

/-- A store finds the counters only if the rows that were there when they were made are counted. -/
def Complete (w : Config Database Opening) : Move Call Opening (List Write) → Prop
  | .call _ => True
  | .resume f _ => f ∈ w.pending → f.position = 0 → w.state.counters.isSome = true → ∀ scope, w.state.uncounted scope = false

instance (w : Config Database Opening) (m : Move Call Opening (List Write)) : Decidable (Complete w m) :=
  match m with
  | .call _ => isTrue trivial
  | .resume f _ => decidable_of_iff (f ∈ w.pending → f.position = 0 → w.state.counters.isSome = true →
      w.state.uncounted .message = false ∧ w.state.uncounted .outbound = false)
    ⟨fun h hf hp hc scope => by cases scope <;> simp [h hf hp hc], fun h hf hp hc => ⟨h hf hp hc _, h hf hp hc _⟩⟩

/-- The database and the stores that open it. -/
structure Shared (w : Config Database Opening) : Prop where
  counted : Counted w.state
  placed : ∀ f ∈ w.pending, Placed w.state f

theorem ready_of_opened (h : Ready db) : Ready { db with opened := true } := ⟨h.counts, h.triggers, h.counted⟩

theorem shared_step {w : Config Database Opening} {m : Move Call Opening (List Write)} (hm : Complete w m) (h : Shared w) :
    Shared (stores.step m w) := by
  rcases stores.step_cases m w with ⟨call, rfl, heq⟩ | ⟨f, recovery, fs, rfl, hw, heq⟩ | heq
  · rw [heq]
    cases call with
    | construct =>
      show Shared (after w.pending (w.state, some {}))
      rw [after_some]
      refine ⟨h.counted, fun f hf => ?_⟩
      rcases Multiset.mem_cons.1 hf with rfl | hf
      · exact fun k hk => absurd hk (Nat.not_lt_zero k)
      · exact h.placed f hf
    | write write =>
      show Shared (after w.pending (if w.state.opened then (write.apply w.state, none) else (w.state, none)))
      split
      · next hopened =>
        rw [after_none]
        exact ⟨((h.counted.ready hopened).write write).isCounted, fun f hf =>
          (h.placed f hf).later (shape_write w.state write).later⟩
      · rw [after_none]
        exact h
  · rw [heq]
    have hplaced := h.placed f (hw ▸ Multiset.mem_cons_self f fs)
    have hrest : ∀ g ∈ fs, Placed w.state g := fun g hg => h.placed g (hw ▸ Multiset.mem_cons_of_mem hg)
    show Shared (after fs (stores.resume f recovery w.state))
    unfold stores
    simp only
    cases hf : opening[f.position]? with
    | none =>
      simp only [after_none]
      exact ⟨h.counted, hrest⟩
    | some statement =>
      have hfound : Found w.state statement := by
        rintro rfl hsome
        have hposition : f.position = 0 := position_eq hf
        exact hm (hw ▸ Multiset.mem_cons_self f fs) hposition hsome
      have hperformed := perform_performed h.counted recovery hplaced hf hfound
      simp only
      split
      · next hlast =>
        have hrecover : statement = .recover := by
          have hget : opening[f.position]? = some .recover := by
            rw [show f.position = 10 from Nat.succ.inj hlast]
            rfl
          rw [hf] at hget
          exact Option.some.inj hget
        rw [after_none]
        refine ⟨(ready_of_opened (hperformed.ready hrecover)).isCounted, fun g hg => ?_⟩
        exact (hrest g hg).later ⟨hperformed.later.counters, hperformed.later.triggers, hperformed.later.uncounted⟩
      · rw [after_some]
        refine ⟨hperformed.counted, fun g hg => ?_⟩
        rcases Multiset.mem_cons.1 hg with rfl | hg
        · intro k hk other hother
          rcases Nat.lt_succ_iff_lt_or_eq.1 hk with hlt | rfl
          · have hdone := (hplaced k hlt other hother).later hperformed.later
            by_cases hprobe : statement = .hadCounters
            · subst hprobe
              have hposition : f.position = 0 := position_eq hf
              omega
            · rw [hperformed.had hprobe]
              exact hdone
          · rw [hf] at hother
            obtain rfl := Option.some.inj hother
            exact hperformed.done
        · exact (hrest g hg).later hperformed.later
  · rw [heq]
    exact h

/-! ## What is read -/

theorem sum_indicator {keys : List Text} (hnodup : keys.Nodup) (status : Text) :
    (keys.map fun k => if status = k then (1 : Int) else 0).sum = if status ∈ keys then 1 else 0 := by
  induction keys with
  | nil => rfl
  | cons k keys ih =>
    rw [List.nodup_cons] at hnodup
    rw [List.map_cons, List.sum_cons, ih hnodup.2]
    by_cases hk : status = k
    · subst hk
      simp [hnodup.1]
    · simp [hk]

/-- The rows of some statuses, counted by status. -/
theorem sum_countP {keys : List Text} (hnodup : keys.Nodup) (rows : List StatusRow) :
    (keys.map fun k => (rows.countP (·.status = k) : Int)).sum = rows.countP (·.status ∈ keys) := by
  induction rows with
  | nil => simp
  | cons r rows ih =>
    have hsum : (keys.map fun k => ((r :: rows).countP (·.status = k) : Int)).sum =
        (keys.map fun k => (rows.countP (·.status = k) : Int)).sum + (keys.map fun k => if r.status = k then (1 : Int) else 0).sum := by
      rw [← List.sum_map_add]
      refine congrArg List.sum (List.map_congr_left fun k _ => ?_)
      rw [List.countP_cons]
      by_cases hk : r.status = k <;> simp [hk]
    rw [hsum, ih, sum_indicator hnodup, List.countP_cons]
    by_cases hk : r.status ∈ keys <;> simp [hk]

theorem counted_spec (hc : db.counters = some c) {r : CounterRow} : r ∈ db.counted scope ↔
    r ∈ c.rows ∧ r.scope = scope ∧ 0 < r.count := by
  unfold Database.counted
  rw [hc, Option.elim_some, List.mem_filter, Bool.and_eq_true, decide_eq_true_eq, decide_eq_true_eq]

theorem value_of_mem {r : CounterRow} (h : r ∈ c.rows) : value c r.scope r.status = r.count := by
  unfold value
  rw [Table.find?_of_mem (identifies_isOf r.scope r.status) h (isOf_iff.2 ⟨rfl, rfl⟩)]
  rfl

theorem Ready.statusCounts (h : Ready db) (scope : Scope) (status : Text) (n : Int) :
    (status, n) ∈ db.statusCounts scope ↔ 0 < n ∧ n = (db.rows scope).rows.countP (·.status = status) := by
  obtain ⟨c, hc, hcounts⟩ := h.counts
  unfold Database.statusCounts
  rw [List.mem_map]
  constructor
  · rintro ⟨r, hr, heq⟩
    obtain ⟨hmem, rfl, hpos⟩ := (counted_spec hc).1 hr
    obtain ⟨rfl, rfl⟩ := Prod.mk.inj heq
    exact ⟨hpos, (value_of_mem hmem).symm.trans (hcounts r.scope r.status)⟩
  · rintro ⟨hpos, rfl⟩
    have hvalue := hcounts scope status
    cases hfind : c.rows.find? (Counters.isOf scope status) with
    | none =>
      unfold value at hvalue
      rw [hfind] at hvalue
      rw [← hvalue] at hpos
      exact absurd hpos (lt_irrefl 0)
    | some r =>
      obtain ⟨hscope, hstatus⟩ := isOf_iff.1 (List.find?_some hfind)
      have hcount : r.count = (db.rows scope).rows.countP (·.status = status) := by
        unfold value at hvalue
        rw [hfind] at hvalue
        exact hvalue
      exact ⟨r, (counted_spec hc).2 ⟨List.mem_of_find?_eq_some hfind, hscope, hcount ▸ hpos⟩, Prod.ext hstatus hcount⟩

theorem counted_nodup (db : Database) (scope : Scope) : ((db.counted scope).map (·.status)).Nodup := by
  unfold Database.counted
  cases hc : db.counters with
  | none => simp
  | some c =>
    refine List.pairwise_map.2 ((c.unique.filter _).imp_of_mem fun {a b} ha hb hab => ?_)
    simp only [List.mem_filter, Bool.and_eq_true, decide_eq_true_eq, Option.elim_some] at ha hb
    intro hstatus
    rw [show clash a b = true from decide_eq_true ⟨ha.2.1.trans hb.2.1.symm, hstatus⟩] at hab
    cases hab

/-- The sum of some counters is the number of the rows they count. -/
theorem Ready.sum_counted (h : Ready db) (scope : Scope) (q : Text → Bool) :
    (((db.counted scope).filter fun r => q r.status).map (·.count)).sum = (db.rows scope).rows.countP fun r => q r.status := by
  obtain ⟨c, hc, hcounts⟩ := h.counts
  have hkeys : ((db.counted scope).filter fun r => q r.status).map (·.count) =
      (((db.counted scope).filter fun r => q r.status).map (·.status)).map
        fun k => ((db.rows scope).rows.countP (·.status = k) : Int) := by
    rw [List.map_map]
    refine List.map_congr_left fun r hr => ?_
    obtain ⟨hmem, rfl, -⟩ := (counted_spec hc).1 (List.mem_of_mem_filter hr)
    rw [Function.comp, ← hcounts, value_of_mem hmem]
  have hnodup : (((db.counted scope).filter fun r => q r.status).map (·.status)).Nodup :=
    (List.filter_sublist.map _).nodup (counted_nodup db scope)
  rw [hkeys, sum_countP hnodup]
  congr 1
  refine List.countP_congr fun r hr => ?_
  rw [decide_eq_true_eq, List.mem_map]
  constructor
  · rintro ⟨k, hk, heq⟩
    have hq := (List.mem_filter.1 hk).2
    rwa [heq] at hq
  · intro hq
    have hpos : 0 < (db.rows scope).rows.countP (·.status = r.status) := List.countP_pos_iff.2 ⟨r, hr, decide_eq_true rfl⟩
    have hmem := (h.statusCounts scope r.status _).2 ⟨by exact_mod_cast hpos, rfl⟩
    obtain ⟨k, hk, heq⟩ := List.mem_map.1 hmem
    have hstatus : k.status = r.status := congrArg Prod.fst heq
    exact ⟨k, List.mem_filter.2 ⟨hk, by rw [hstatus]; exact hq⟩, hstatus⟩

/-- **The counters count**, over every run of opening stores and of writes from a database without counters: whenever a
constructor has returned, each counter is the number of rows of its status, and so are the counts that are read. -/
theorem counters_count (rows : Scope → Table StatusRow) (moves : List (Move Call Opening (List Write)))
    (hmoves : stores.Along Complete moves ⟨{ rows := rows }, 0⟩) :
    let db := (stores.run moves ⟨{ rows := rows }, 0⟩).state
    db.opened = true →
      (∃ c, db.counters = some c ∧ ∀ scope status, value c scope status = (db.rows scope).rows.countP (·.status = status)) ∧
      db.countMessages = (db.rows .message).rows.length ∧
      (∀ status, db.countOutboundAudits status =
        (db.rows .outbound).rows.countP fun r => status.all fun s => s = [] || r.status = s) ∧
      ∀ scope status n, (status, n) ∈ db.statusCounts scope ↔ 0 < n ∧ n = (db.rows scope).rows.countP (·.status = status) := by
  intro db hopened
  have hshared : Shared (stores.run moves ⟨{ rows := rows }, 0⟩) :=
    run_invariant (fun w m hm h => shared_step hm h) hmoves
      ⟨⟨fun c hc => (by cases hc), fun h => (by cases h)⟩, fun f hf => absurd hf (Multiset.notMem_zero f)⟩
  have hready : Ready db := hshared.counted.ready hopened
  refine ⟨hready.counts, ?_, fun status => ?_, hready.statusCounts⟩
  · have hsum := hready.sum_counted .message fun _ => true
    rw [List.filter_true, List.countP_true] at hsum
    exact hsum
  · exact hready.sum_counted .outbound fun text => status.all fun s => s = [] || text = s

/-- One message of an earlier version. -/
def legacyRows : Scope → Table StatusRow
  | .message => ⟨[⟨"m1".toList, "new".toList⟩], List.pairwise_singleton _ _⟩
  | .outbound => .empty

/-- A store opens, from a position on. -/
def openingFrom (had : Bool) (positions : List Nat) : List (Move Call Opening (List Write)) :=
  positions.map fun k => .resume ⟨k, had⟩ []

/-- A store opens, and the message is answered. -/
def openedOnce : List (Move Call Opening (List Write)) :=
  .call .construct :: openingFrom false (List.range 11) ++ [.call (.write (.update .message (fun _ => true) fun _ => "replied".toList))]

theorem counters_count_once :
    (stores.run openedOnce ⟨{ rows := legacyRows }, 0⟩).state.countMessages =
      ((stores.run openedOnce ⟨{ rows := legacyRows }, 0⟩).state.rows .message).rows.length :=
  (counters_count legacyRows openedOnce (by decide +kernel) (by decide +kernel)).2.1

/-- A store dies when it has made the counters; the next one opens. -/
def openedTwice : List (Move Call Opening (List Write)) :=
  .call .construct :: openingFrom false [0, 1] ++ .call .construct :: openingFrom false [0] ++ openingFrom true (List.range' 1 10)

/-- The message is not counted. -/
theorem message_not_counted :
    (stores.run openedTwice ⟨{ rows := legacyRows }, 0⟩).state.opened = true ∧
      (stores.run openedTwice ⟨{ rows := legacyRows }, 0⟩).state.countMessages = 0 ∧
      ((stores.run openedTwice ⟨{ rows := legacyRows }, 0⟩).state.rows .message).rows.length = 1 := by
  decide +kernel

end Zenod.WhatsApp
