/-
Databases whose figures can be trusted, whoever wrote them: what the
statements have always kept of a database (`Kept`), and totals rows that hold
the sums of the entries. A database from before there were totals is opened by
summing its entries once (`openLedger`), so what holds of every counted
database holds of old and new ones alike.
-/
import Zenod.Phylax.Projection
import Zenod.Phylax.Fencing

namespace Zenod.Phylax

variable {B : Backend} {u : Option Draw}

/-! ## What every ledger has kept -/

/-- Units are never negative, and a row points at an entry that is there. -/
structure RowKept (lastSequence : Nat) (w : PaidWorkRow) : Prop where
  estimated : 0 ≤ w.estimatedUnits
  reserved : 0 ≤ w.reservedUnits
  pointer : ∀ n, w.usageEntrySequence = some n → n ≤ lastSequence

/-- Usage and expiry take units away. -/
def EntryRow.Spends (e : EntryRow) : Prop := e.kind = .usage ∨ e.kind = .expiry → e.amountUnits ≤ 0

structure Kept (db : Db) : Prop where
  ordered : Ordered db
  work : ∀ w ∈ db.work.rows, RowKept db.lastSequence w
  spends : ∀ e ∈ db.entries.rows, e.Spends
  named : ∀ p ∈ db.periods.rows, Normalized 512 p.periodId

theorem RowKept.mono {m n : Nat} {w : PaidWorkRow} (h : RowKept m w) (hle : m ≤ n) : RowKept n w :=
  ⟨h.estimated, h.reserved, fun k hk => (h.pointer k hk).trans hle⟩

theorem RowKept.unleased {n : Nat} {w : PaidWorkRow} {state : PaidWorkState} {reason : Option PauseReason} {now : Int}
    (h : RowKept n w) : RowKept n (w.unleased state reason now) := ⟨h.estimated, le_refl _, h.pointer⟩

theorem RowKept.evaluated {n : Nat} {w : PaidWorkRow} {verdict : PaidWorkState × Option PauseReason} {now : Int}
    (h : RowKept n w) : RowKept n (w.evaluated verdict now) := by
  refine ⟨h.estimated, ?_, h.pointer⟩
  simp only [PaidWorkRow.evaluated]
  split
  · exact h.estimated
  · exact le_refl _

theorem RowKept.completed {n k : Nat} {w : PaidWorkRow} {owner token receipt : String} {now : Int} (h : RowKept n w)
    (hk : k ≤ n) : RowKept n (w.completed owner token k receipt now) := by
  refine ⟨h.estimated, le_refl _, fun m hm => ?_⟩
  obtain rfl := Option.some.inj hm
  exact hk

theorem RowStep.kept {db : Db} {n : Nat} {w w' : PaidWorkRow} (hs : RowStep B u db w w') (h : RowKept n w) :
    RowKept n w' := by
  cases hs with
  | keep => exact h
  | pause _ _ _ => exact h.unleased
  | move _ hmove =>
    cases hmove with
    | evaluate now _ => exact h.evaluated
    | free now db₁ _ _ => exact h.unleased.evaluated
    | claim _ _ _ _ _ _ _ => exact ⟨h.estimated, h.reserved, h.pointer⟩
    | renew _ _ _ => exact ⟨h.estimated, h.reserved, h.pointer⟩
    | requestCancel _ _ _ => exact ⟨h.estimated, h.reserved, h.pointer⟩
    | cancel _ _ _ => exact ⟨h.estimated, le_refl _, h.pointer⟩

/-- Whatever is booked spends if it is usage or expiry. -/
theorem BookGuard.spends {db : Db} {input : EntryInput} (h : BookGuard B db input) {n : Nat} :
    (input.row n).Spends := by
  intro hk
  simp only [EntryInput.row] at hk ⊢
  cases h with
  | grant _ hkind | adjustment _ hkind | suspend hkind | resume hkind => simp [hkind] at hk
  | usage _ _ _ hle _ => exact hle
  | expiry _ _ _ hpos _ _ => omega

theorem Kept.insertEntry {db db' : Db} {input : EntryInput} {row : EntryRow} (h : Kept db) (hs : row.Spends)
    (hins : insertEntry db input = .ok (row, db')) : Kept db' := by
  refine ⟨h.ordered.insertEntry hins, fun w hw => ?_, fun e he => ?_, ?_⟩
  · rw [insertEntry_work hins] at hw
    obtain ⟨-, entries, -, rfl⟩ := insertEntry_ok.1 hins
    exact (h.work w hw).mono (Nat.le_succ _)
  · rw [insertEntry_rows hins, List.mem_append, List.mem_singleton] at he
    rcases he with he | rfl
    · exact h.spends e he
    · exact hs
  · obtain ⟨-, entries, -, rfl⟩ := insertEntry_ok.1 hins
    exact h.named

/-- Paid work may change as long as each row is still kept. -/
theorem Kept.of_work {db : Db} (h : Kept db) {work : Table PaidWorkRow}
    (hrow : ∀ w ∈ work.rows, RowKept db.lastSequence w) : Kept { db with work := work } :=
  ⟨⟨h.ordered.sorted, h.ordered.le_last⟩, hrow, h.spends, h.named⟩

theorem Write.rowsKept {db db' : Db} {n : Nat} (hw : Write B u db db') (h : ∀ w ∈ db.work.rows, RowKept n w) :
    ∀ w ∈ db'.work.rows, RowKept n w := by
  intro w' hw'
  rcases hw.row hw' with ⟨w, hmem, hs⟩ | ⟨row, db₁, now, hc, -, rfl⟩
  · exact hs.kept (h w hmem)
  · replace hc := hc.captured
    refine RowKept.evaluated ⟨hc.estimated.1, hc.reserved.ge, fun n hn => ?_⟩
    rw [hc.unsettled.1] at hn
    cases hn

theorem Kept.write {db db' : Db} (h : Kept db) (hw : Write B u db db') : Kept db' := by
  have hrows := hw.rowsKept h.work
  cases hw with
  | period row periods hlt ht hp hins =>
    refine ⟨⟨h.ordered.sorted, h.ordered.le_last⟩, hrows, h.spends, fun p hmem => ?_⟩
    rw [(Table.insert?_eq_some.1 hins).2, List.mem_append, List.mem_singleton] at hmem
    rcases hmem with hmem | rfl
    · exact h.named p hmem
    · exact hp
  | book input row _ hguard hins =>
    refine h.insertEntry ?_ hins
    rw [(insertEntry_ok.1 hins).1]
    exact hguard.spends
  | pause _ _ _ _ | move _ _ _ _ _ => exact h.of_work hrows
  | capture row work db₁ now _ _ hdb =>
    subst hdb
    exact h.of_work hrows

/-- The entry a settlement points at is there. -/
theorem Charge.kept {owned : Int} {w : PaidWorkRow} {db db' : Db} {e : EntryRow} (h : Kept db)
    (hc : Charge B owned w db e db') : Kept db' ∧ e.sequence ≤ db'.lastSequence := by
  cases hc with
  | replay _ he => exact ⟨h, h.ordered.le_last e he⟩
  | book input _ _ hk _ _ hle _ hins =>
    obtain ⟨rfl, -⟩ := insertEntry_ok.1 hins
    refine ⟨h.insertEntry (fun _ => hle) hins, ?_⟩
    obtain ⟨-, entries, -, rfl⟩ := insertEntry_ok.1 hins
    exact le_refl _

theorem Kept.settle {db db' : Db} {w : PaidWorkRow} {via : Via} (h : Kept db) (hs : Settle B w db via db') :
    Kept db' := by
  have complete : ∀ {db₁ : Db} {p : PaidWorkRow → Bool} {g : PaidWorkRow → PaidWorkRow} {hg},
      Kept db₁ → (∀ v, RowKept db₁.lastSequence v → RowKept db₁.lastSequence (g v)) →
        Kept (db₁.updateWork p g hg) := by
    intro db₁ p g hg h₁ hrow
    refine h₁.of_work fun v' hv' => ?_
    simp only [Table.rows_update, List.mem_map] at hv'
    obtain ⟨v, hv, rfl⟩ := hv'
    split
    · exact hrow v (h₁.work v hv)
    · exact h₁.work v hv
  cases hs with
  | lease owner token receipt now e db₁ _ _ _ _ hc =>
    obtain ⟨h₁, hseq⟩ := hc.kept h
    exact complete h₁ fun v hv => hv.completed hseq
  | receipt receipt now owned e db₁ _ _ hc =>
    obtain ⟨h₁, hseq⟩ := hc.kept h
    exact complete h₁ fun v hv => hv.completed hseq

/-! ## Counted databases -/

theorem TotalsSound.write {db db' : Db} (h : TotalsSound db) (hw : Write B u db db') : TotalsSound db' := by
  cases hw with
  | book input row _ _ hins => exact h.insertEntry hins
  | capture row work db₁ now _ _ hdb =>
    subst hdb
    exact h
  | period _ _ _ _ _ _ | pause _ _ _ _ | move _ _ _ _ _ => exact h

theorem TotalsSound.settle {db db' : Db} {w : PaidWorkRow} {via : Via} (h : TotalsSound db)
    (hs : Settle B w db via db') : TotalsSound db' := by
  have charge : ∀ {owned : Int} {e : EntryRow} {db₁ : Db}, Charge B owned w db e db₁ → TotalsSound db₁ := by
    intro owned e db₁ hc
    cases hc with
    | replay _ _ => exact h
    | book _ _ _ _ _ _ _ _ hins => exact h.insertEntry hins
  cases hs with
  | lease _ _ _ _ _ db₁ _ _ _ _ hc =>
    have h₁ : TotalsSound db₁ := charge hc
    exact h₁
  | receipt _ _ _ _ db₁ _ _ hc =>
    have h₁ : TotalsSound db₁ := charge hc
    exact h₁

/-- A kept database whose totals rows are the sums of its entries. -/
structure Counted (db : Db) : Prop where
  kept : Kept db
  totals : TotalsSound db

theorem Counted.empty : Counted Db.empty :=
  ⟨⟨⟨.nil, by simp [Db.empty]⟩, by simp [Db.empty], by simp [Db.empty], by simp [Db.empty]⟩, LedgerInv.empty.totals⟩

theorem Counted.steps {db db' : Db} (h : Counted db) (hs : Steps B u db db') : Counted db' := by
  induction hs with
  | refl => exact h
  | tail _ hw ih => exact ⟨ih.kept.write hw, ih.totals.write hw⟩

/-- Every method keeps a counted database counted. -/
theorem Counted.after {db : Db} (op : LedgerOp) (h : Counted db) : Counted (op.after B db) :=
  op.preserves (fun _ h w hw => (h.kept.work w hw).pointer)
    (fun _ _ h hw => ⟨h.kept.write hw, h.totals.write hw⟩)
    (fun _ _ _ _ h hs => ⟨h.kept.settle hs, h.totals.settle hs⟩) h

/-- Rows may be put to rest. -/
theorem Counted.unlease {db : Db} (h : Counted db) (p : PaidWorkRow → Bool) (state : PaidWorkState)
    (reason : Option PauseReason) (now : Int) :
    Counted (db.updateWork p (·.unleased state reason now) (PaidWorkRow.keeps fun _ => rfl)) := by
  refine ⟨h.kept.of_work fun v' hv' => ?_, h.totals⟩
  simp only [Table.rows_update, List.mem_map] at hv'
  obtain ⟨v, hv, rfl⟩ := hv'
  split
  · exact (h.kept.work v hv).unleased
  · exact h.kept.work v hv

/-- A captured row may be inserted. -/
theorem Counted.capture {db : Db} (h : Counted db) {row : PaidWorkRow} {work : Table PaidWorkRow} (hc : Captured row)
    (hins : db.work.insert? row = some work) : Counted { db with work := work } := by
  refine ⟨h.kept.of_work fun w hw => ?_, h.totals⟩
  rw [(Table.insert?_eq_some.1 hins).2, List.mem_append, List.mem_singleton] at hw
  rcases hw with hw | rfl
  · exact h.kept.work w hw
  · refine ⟨hc.estimated.1, hc.reserved.ge, fun n hn => ?_⟩
    rw [hc.unsettled.1] at hn
    cases hn

theorem runOps_counted (ops : List LedgerOp) {db : Db} (h : Counted db) : Counted (runOps B ops db) := by
  induction ops generalizing db with
  | nil => exact h
  | cons op ops ih => exact ih (h.after op)

/-! ## Opening a database -/

/-- A database from before there were totals. -/
structure LegacyDb extends Db where
  noTotals : totals = .empty
  kept : Kept toDb

/-- The periods the entries are about. -/
def entryPeriods (entries : Table EntryRow) : List (String × String) :=
  (entries.rows.filterMap fun e => e.periodId.map fun p => (e.tenantId, p)).dedup

/-- The totals row of a group of entries. -/
def groupTotals (entries : Table EntryRow) (group : String × String) : TotalsRow :=
  let rows := entries.rows.filter (·.isIn group.1 group.2)
  { tenantId := group.1, periodId := group.2, balanceUnits := (rows.map (·.amountUnits)).sum,
    allocatedUnits := (rows.map fun e =>
      if e.kind = .grant ∨ e.kind = .adjustment ∨ e.kind = .expiry then e.amountUnits else 0).sum,
    usedUnits := -(rows.map fun e => if e.kind = .usage then e.amountUnits else 0).sum }

/-- `SELECT ... GROUP BY tenant_id, period_id` of the one-time backfill. -/
def backfillTotals (entries : Table EntryRow) : Table TotalsRow where
  rows := (entryPeriods entries).map (groupTotals entries)
  unique := by
    refine List.pairwise_map.2 ((List.nodup_dedup _).imp fun {a b} hne => ?_)
    simp only [Keyed.clash, groupTotals, Bool.and_eq_false_iff, beq_eq_false_iff_ne]
    by_contra hboth
    simp only [not_or, not_not] at hboth
    exact hne (Prod.ext hboth.1 hboth.2)

/-- `(SELECT provider_event_id FROM phylax_allowance_entries WHERE sequence = usage_entry_sequence)`. -/
def receiptOf (db : Db) (w : PaidWorkRow) : Option String :=
  (db.entries.rows.find? fun e => w.usageEntrySequence = some e.sequence).bind (·.providerEventId)

/-- Done rows written before there was a receipt column take it from their entry. -/
def backfillReceipts (db : Db) : Db :=
  db.updateWork (fun w => w.state = .done ∧ w.providerReceiptId = none ∧ w.usageEntrySequence.isSome)
    (fun w => { w with providerReceiptId := receiptOf db w }) (PaidWorkRow.keeps fun _ => rfl)

/-- The database the constructor leaves: of a new file, or of an old one. -/
def openLedger : Option LegacyDb → Db
  | none => Db.empty
  | some old => backfillReceipts { old.toDb with totals := backfillTotals old.entries }

theorem mem_entryPeriods {entries : Table EntryRow} {t p : String} :
    (t, p) ∈ entryPeriods entries ↔ ∃ e ∈ entries.rows, e.isIn t p = true := by
  simp only [entryPeriods, List.mem_dedup, List.mem_filterMap, Option.map_eq_some_iff, Prod.mk.injEq,
    EntryRow.isIn, decide_eq_true_eq]
  constructor
  · rintro ⟨e, he, q, hq, ht, rfl⟩
    exact ⟨e, he, ht, hq⟩
  · rintro ⟨e, he, ht, hq⟩
    exact ⟨e, he, p, hq, ht, rfl⟩

/-- The backfilled totals are the sums of the entries. -/
theorem backfillTotals_sound (db : Db) : TotalsSound { db with totals := backfillTotals db.entries } := by
  intro t p
  by_cases hmem : (t, p) ∈ entryPeriods db.entries
  · have hrow := List.mem_map_of_mem (f := groupTotals db.entries) hmem
    have hfind := Table.find?_of_mem (t := backfillTotals db.entries) (identifies_totals t p) hrow
      (by simp [groupTotals])
    have hneg : ∀ rows : List EntryRow, -(rows.map fun e => if e.kind = .usage then e.amountUnits else 0).sum =
        (rows.map fun e => e.totals.used).sum := by
      intro rows
      induction rows with
      | nil => rfl
      | cons e rows ih =>
        rw [List.map_cons, List.map_cons, List.sum_cons, List.sum_cons, ← ih]
        simp only [EntryRow.totals]
        split <;> omega
    simp only [readTotals, hfind, sumTotals, Table.sumBy_filter, PeriodTotals.mk.injEq]
    exact ⟨rfl, rfl, hneg _⟩
  · have hnone : ∀ e ∈ db.entries.rows, ¬e.isIn t p = true := fun e he hin => hmem (mem_entryPeriods.2 ⟨e, he, hin⟩)
    have hfind : (backfillTotals db.entries).rows.find? (fun r => r.tenantId = t ∧ r.periodId = p) = none := by
      rw [List.find?_eq_none]
      intro r hr
      simp only [backfillTotals, List.mem_map] at hr
      obtain ⟨k, hk, rfl⟩ := hr
      intro hkey
      obtain ⟨rfl, rfl⟩ : k.1 = t ∧ k.2 = p := of_decide_eq_true hkey
      exact hmem hk
    have hempty : db.entries.rows.filter (·.isIn t p) = [] := List.filter_eq_nil_iff.2 hnone
    simp only [readTotals, hfind, sumTotals, Table.sumBy_filter, hempty]
    rfl

theorem openLedger_counted (old : Option LegacyDb) : Counted (openLedger old) := by
  cases old with
  | none => exact .empty
  | some old =>
    refine ⟨?_, backfillTotals_sound old.toDb⟩
    have h := old.kept
    have hwork : ∀ w ∈ (openLedger (some old)).work.rows, RowKept old.lastSequence w := by
      intro w' hw'
      simp only [openLedger, backfillReceipts, Db.updateWork, Table.rows_update, List.mem_map] at hw'
      obtain ⟨w, hw, rfl⟩ := hw'
      have hrow := h.work w hw
      split
      · exact ⟨hrow.estimated, hrow.reserved, hrow.pointer⟩
      · exact hrow
    exact ⟨⟨h.ordered.sorted, h.ordered.le_last⟩, hwork, h.spends, h.named⟩

end Zenod.Phylax
