/-
What the expiry sweep achieves. Each ended period is settled on its own: the
turn of one period leaves every other untouched (`Untouched`), so what a sweep
does to a period is what the period's own turn does to it, in a database that
still shows the period as it was before the sweep (`expirePeriods_turn`).

The sweep expires all there is of a period, unless a caller has booked an
entry under the very key it derives: the key space is the callers' too.
-/
import Mathlib.Data.List.Dedup
import Zenod.Phylax.Settlement
import Zenod.Phylax.Solvency

namespace Zenod.Phylax

variable {B : Backend}

/-! ## Expiry keys -/

theorem colon_not_mem_toString (n : Nat) : ':' ∉ (toString n).toList := by
  intro h
  have hdigits : (toString n).toList = Nat.toDigits 10 n := Nat.toList_repr
  rw [hdigits] at h
  have := Nat.isDigit_of_mem_toDigits (by decide) (by decide) h
  exact absurd this (by decide)

/-- A text that ends in a mark, followed by one without it, can be taken apart. -/
theorem append_mark_inj {α : Type} {x : α} {as bs ds es : List α} (hd : x ∉ ds) (he : x ∉ es)
    (h : as ++ x :: ds = bs ++ x :: es) : as = bs := by
  induction as generalizing bs with
  | nil =>
    cases bs with
    | nil => rfl
    | cons b bs =>
      simp only [List.nil_append, List.cons_append, List.cons.injEq] at h
      exact absurd (h.2 ▸ List.mem_append_right bs List.mem_cons_self) hd
  | cons a as ih =>
    cases bs with
    | nil =>
      simp only [List.nil_append, List.cons_append, List.cons.injEq] at h
      exact absurd (h.2 ▸ List.mem_append_right as List.mem_cons_self) he
    | cons b bs =>
      simp only [List.cons_append, List.cons.injEq] at h
      rw [h.1, ih h.2]

/-- Two periods never share an expiry key. -/
theorem expiryKey_inj {p q : String} {n m : Nat} (h : expiryKey p n = expiryKey q m) : p = q := by
  have key : ∀ r k, (expiryKey r k).toList =
      ("system:expiry:".toList ++ r.toList ++ ":through".toList) ++ ':' :: (toString k).toList := by
    intro r k
    have hkey : expiryKey r k = "system:expiry:" ++ r ++ ":through:" ++ toString k := rfl
    rw [hkey, String.toList_append, String.toList_append, String.toList_append]
    simp
  have hl := congrArg String.toList h
  rw [key, key] at hl
  have := append_mark_inj (colon_not_mem_toString n) (colon_not_mem_toString m) hl
  rw [List.append_left_inj, List.append_right_inj] at this
  exact String.toList_injective this

/-! ## What a period shows -/

/-- Nothing of the period changed, nor which expiry keys of it are taken. -/
structure Untouched (t p : String) (db db' : Db) : Prop where
  work : db'.work.rows.filter (·.isIn t p) = db.work.rows.filter (·.isIn t p)
  entries : db'.entries.rows.filter (·.isIn t p) = db.entries.rows.filter (·.isIn t p)
  keys : ∀ n, (db'.entryByIdempotency t (expiryKey p n)).isSome = (db.entryByIdempotency t (expiryKey p n)).isSome

theorem Untouched.refl (t p : String) (db : Db) : Untouched t p db db := ⟨rfl, rfl, fun _ => rfl⟩

theorem Untouched.trans {t p : String} {db db₁ db₂ : Db} (h₁ : Untouched t p db db₁) (h₂ : Untouched t p db₁ db₂) :
    Untouched t p db db₂ :=
  ⟨h₂.work.trans h₁.work, h₂.entries.trans h₁.entries, fun n => (h₂.keys n).trans (h₁.keys n)⟩

theorem Untouched.balance {t p : String} {db db' : Db} (h : Untouched t p db db') :
    (sumTotals db' t p).balance = (sumTotals db t p).balance := by
  simp only [sumTotals, Table.sumBy_filter, h.entries]

theorem Untouched.processing {t p : String} {db db' : Db} (h : Untouched t p db db') :
    db'.processingInPeriod t p = db.processingInPeriod t p := by
  have key : ∀ d : Db, d.processingInPeriod t p =
      ((d.work.rows.filter (·.isIn t p)).map fun w => if w.state = .processing then w.reservedUnits else 0).sum := by
    intro d
    rw [← Table.sumBy_filter]
    refine Table.sumBy_congr fun w _ => ?_
    by_cases hin : w.isIn t p = true <;> simp [hin]
  rw [key, key, h.work]

theorem Untouched.reserved {t p : String} {db db' : Db} (h : Untouched t p db db') :
    db'.reservedInPeriod t p = db.reservedInPeriod t p := by
  have key : ∀ d : Db, d.reservedInPeriod t p =
      ((d.work.rows.filter (·.isIn t p)).map fun w => if w.holdsUnits then w.reservedUnits else 0).sum := by
    intro d
    rw [← Table.sumBy_filter]
    refine Table.sumBy_congr fun w _ => ?_
    by_cases hin : w.isIn t p = true <;> simp [hin]
  rw [key, key, h.work]

theorem Untouched.anchor {t p : String} {db db' : Db} (h : Untouched t p db db') :
    db'.lastSequenceInPeriod t p = db.lastSequenceInPeriod t p := by
  simp only [Db.lastSequenceInPeriod, h.entries]

/-- A row of the period is there before as after. -/
theorem Untouched.mem_iff {t p : String} {db db' : Db} (h : Untouched t p db db') {w : PaidWorkRow}
    (hin : w.isIn t p = true) : w ∈ db'.work.rows ↔ w ∈ db.work.rows := by
  have h₁ : w ∈ db'.work.rows.filter (·.isIn t p) ↔ w ∈ db.work.rows.filter (·.isIn t p) := by rw [h.work]
  simpa only [List.mem_filter, hin, and_true] using h₁

/-- Nothing of the period is captured or ready. -/
def Closed (t p : String) (db : Db) : Prop := ∀ w ∈ db.work.rows, w.isIn t p = true → w.isOpen = false

theorem Untouched.closed {t p : String} {db db' : Db} (h : Untouched t p db db') : Closed t p db' ↔ Closed t p db := by
  constructor
  · exact fun hc w hw hin => hc w ((h.mem_iff hin).2 hw) hin
  · exact fun hc w hw hin => hc w ((h.mem_iff hin).1 hw) hin

/-- The key the sweep would book the period's expiry under is taken. -/
def KeyTaken (t p : String) (db : Db) : Prop :=
  (db.entryByIdempotency t (expiryKey p (db.lastSequenceInPeriod t p))).isSome = true

theorem Untouched.keyTaken {t p : String} {db db' : Db} (h : Untouched t p db db') :
    KeyTaken t p db' ↔ KeyTaken t p db := by
  simp only [KeyTaken, h.anchor, h.keys]

/-! ## One turn -/

theorem pause_keeps (now : Int) (r s : PaidWorkRow) :
    Keyed.clash (r.unleased .paused (some .periodInactive) now) s = Keyed.clash r s :=
  PaidWorkRow.keeps (f := (·.unleased .paused (some .periodInactive) now)) (fun _ => rfl) r s

theorem untouched_pauseEnded {t p : String} {now : Int} {db : Db} {q : PeriodRow}
    (hne : ¬(q.tenantId = t ∧ q.periodId = p)) : Untouched t p db (pauseEnded now db q) := by
  refine ⟨Table.filter_update (pause_keeps now) (fun _ => rfl) fun w hw => ?_, rfl, fun _ => rfl⟩
  simp only [PaidWorkRow.isIn, decide_eq_true_eq] at hw
  simp only [PaidWorkRow.isIn, decide_eq_false_iff_not]
  exact fun hin => hne ⟨hw.1.1.symm.trans hin.1, hw.1.2.symm.trans hin.2⟩

theorem entryByIdempotency_insertEntry {db db' : Db} {input : EntryInput} {row : EntryRow}
    (h : insertEntry db input = .ok (row, db')) (t key : String) :
    (db'.entryByIdempotency t key).isSome =
      ((db.entryByIdempotency t key).isSome || decide (input.tenantId = t ∧ input.idempotencyKey = key)) := by
  simp only [Db.entryByIdempotency, insertEntry_rows h, List.find?_append, Option.isSome_or]
  rw [(insertEntry_ok.1 h).1]
  congr 1
  by_cases hk : input.tenantId = t ∧ input.idempotencyKey = key
  · simp [EntryInput.row, hk]
  · simp only [EntryInput.row, List.find?_cons, hk, decide_false, List.find?_nil, Option.isSome_none]

theorem untouched_turn {t p : String} {now : Int} {k n : Nat} {db db' : Db} {q : PeriodRow}
    (hne : ¬(q.tenantId = t ∧ q.periodId = p)) (h : expirePeriod B now k db q = .ok (n, db')) :
    Untouched t p db db' := by
  rcases expirePeriod_cases h with rfl | ⟨row, -, hins⟩
  · exact untouched_pauseEnded hne
  · refine (untouched_pauseEnded hne).trans ⟨by rw [insertEntry_work hins], ?_, fun m => ?_⟩
    · have hrow : row.isIn t p = false := by
        rw [(insertEntry_ok.1 hins).1]
        simpa [EntryRow.isIn, EntryInput.row, expiryEntry] using hne
      rw [insertEntry_rows hins, List.filter_append]
      simp [hrow]
    · rw [entryByIdempotency_insertEntry hins]
      have hkey : ¬((expiryEntry B now (pauseEnded now db q) q).tenantId = t ∧
          (expiryEntry B now (pauseEnded now db q) q).idempotencyKey = expiryKey p m) :=
        fun hk => hne ⟨hk.1, expiryKey_inj hk.2⟩
      rw [decide_eq_false hkey, Bool.or_false]

theorem reclaimable_eq {db : Db} (hB : B.Sound) (h : TotalsSound db) (q : PeriodRow) :
    reclaimable B db q = max 0 ((sumTotals db q.tenantId q.periodId).balance -
      db.processingInPeriod q.tenantId q.periodId) := by
  simp only [reclaimable, periodBalance, hB db h]

theorem processing_pauseEnded (now : Int) (db : Db) (q : PeriodRow) (t p : String) :
    (pauseEnded now db q).processingInPeriod t p = db.processingInPeriod t p := by
  refine Table.sumBy_update_eq (pause_keeps now) fun w _ hw => ?_
  simp only [decide_eq_true_eq] at hw
  have hnot : w.state ≠ .processing := by
    intro hs
    simp [PaidWorkRow.isOpen, hs] at hw
  simp [PaidWorkRow.unleased, hnot]

theorem reclaimable_pauseEnded {now : Int} {db : Db} (hB : B.Sound) (h : TotalsSound db) (q : PeriodRow) :
    reclaimable B (pauseEnded now db q) q = reclaimable B db q := by
  have hs : TotalsSound (pauseEnded now db q) := h
  rw [reclaimable_eq hB hs, reclaimable_eq hB h, processing_pauseEnded]
  rfl

/-- A turn that books nothing. -/
theorem turn_skips {now : Int} {k : Nat} {db : Db} {q : PeriodRow} (hB : B.Sound) (h : TotalsSound db)
    (hskip : reclaimable B db q = 0 ∨ KeyTaken q.tenantId q.periodId db) :
    expirePeriod B now k db q = .ok (k, pauseEnded now db q) := by
  simp only [expirePeriod, reclaimable_pauseEnded hB h]
  by_cases hzero : reclaimable B db q = 0
  · rw [if_pos hzero]
  · rw [if_neg hzero]
    have htaken : KeyTaken q.tenantId q.periodId (pauseEnded now db q) := hskip.resolve_left hzero
    obtain ⟨e, he⟩ := Option.isSome_iff_exists.1 htaken
    have he' : (pauseEnded now db q).entryByIdempotency q.tenantId
        (expiryEntry B now (pauseEnded now db q) q).idempotencyKey = some e := he
    rw [he']

/-- A turn that books the rest of the period. -/
theorem turn_books {now : Int} {k n : Nat} {db db' : Db} {q : PeriodRow} (hB : B.Sound) (h : TotalsSound db)
    (hpos : reclaimable B db q ≠ 0) (hfree : ¬KeyTaken q.tenantId q.periodId db)
    (hturn : expirePeriod B now k db q = .ok (n, db')) :
    ∃ row, insertEntry (pauseEnded now db q) (expiryEntry B now (pauseEnded now db q) q) = .ok (row, db') := by
  simp only [expirePeriod, reclaimable_pauseEnded hB h, if_neg hpos] at hturn
  split at hturn
  · next e he =>
    have htaken : KeyTaken q.tenantId q.periodId db := Option.isSome_iff_exists.2 ⟨e, he⟩
    exact absurd htaken hfree
  · simp only [bind_ok, pure_ok, Prod.mk.injEq] at hturn
    obtain ⟨⟨row, db₁⟩, hins, -, rfl⟩ := hturn
    exact ⟨row, hins⟩

theorem closed_turn {now : Int} {k n : Nat} {db db' : Db} {q : PeriodRow}
    (hturn : expirePeriod B now k db q = .ok (n, db')) : Closed q.tenantId q.periodId db' := by
  rcases expirePeriod_cases hturn with rfl | ⟨row, -, hins⟩
  · exact isOpen_pauseEnded
  · intro w hw
    rw [insertEntry_work hins] at hw
    exact isOpen_pauseEnded w hw

/-- What can still be reclaimed after a turn: nothing, or all of it when the key was taken. -/
theorem reclaimable_turn {now : Int} {k n : Nat} {db db' : Db} {q : PeriodRow} (hB : B.Sound) (h : LedgerInv db)
    (hturn : expirePeriod B now k db q = .ok (n, db')) :
    (KeyTaken q.tenantId q.periodId db → reclaimable B db' q = reclaimable B db q ∧ KeyTaken q.tenantId q.periodId db') ∧
    (¬KeyTaken q.tenantId q.periodId db → reclaimable B db' q = 0) := by
  have h' : LedgerInv db' := h.steps (expirePeriod_steps hturn : Steps B none db db')
  constructor
  · intro htaken
    rw [turn_skips hB h.totals (.inr htaken)] at hturn
    obtain ⟨-, rfl⟩ := Prod.mk.inj (Except.ok.inj hturn)
    exact ⟨reclaimable_pauseEnded hB h.totals q, htaken⟩
  · intro hfree
    by_cases hzero : reclaimable B db q = 0
    · rw [turn_skips hB h.totals (.inl hzero)] at hturn
      obtain ⟨-, rfl⟩ := Prod.mk.inj (Except.ok.inj hturn)
      exact (reclaimable_pauseEnded hB h.totals q).trans hzero
    · obtain ⟨row, hins⟩ := turn_books hB h.totals hzero hfree hturn
      have hin : row.isIn q.tenantId q.periodId = true ∧ row.amountUnits = -reclaimable B db q := by
        rw [(insertEntry_ok.1 hins).1]
        exact ⟨by simp [EntryRow.isIn, EntryInput.row, expiryEntry],
          congrArg Neg.neg (reclaimable_pauseEnded hB h.totals q)⟩
      have hbalance := congrArg Account.balance (account_insertEntry hins q.tenantId q.periodId)
      simp only [account, hin.1, if_true, hin.2] at hbalance
      have hpaused : (sumTotals (pauseEnded now db q) q.tenantId q.periodId).balance =
          (sumTotals db q.tenantId q.periodId).balance := rfl
      have hprocessing : db'.processingInPeriod q.tenantId q.periodId = db.processingInPeriod q.tenantId q.periodId := by
        rw [← processing_pauseEnded now db q]
        simp only [Db.processingInPeriod, insertEntry_work hins]
      have heq := reclaimable_eq hB h.totals q
      rw [reclaimable_eq hB h'.totals, hbalance, hpaused, hprocessing]
      omega

/-! ## The whole sweep -/

/-- The sweep has nothing to do for the period. -/
def Inert (B : Backend) (q : PeriodRow) (db : Db) : Prop :=
  Closed q.tenantId q.periodId db ∧ (reclaimable B db q = 0 ∨ KeyTaken q.tenantId q.periodId db)

theorem Untouched.reclaimable {db db' : Db} {q : PeriodRow} (hB : B.Sound) (h : TotalsSound db) (h' : TotalsSound db')
    (hu : Untouched q.tenantId q.periodId db db') : reclaimable B db' q = reclaimable B db q := by
  rw [reclaimable_eq hB h', reclaimable_eq hB h, hu.balance, hu.processing]

theorem Untouched.inert {db db' : Db} {q : PeriodRow} (hB : B.Sound) (h : TotalsSound db) (h' : TotalsSound db')
    (hu : Untouched q.tenantId q.periodId db db') : Inert B q db' ↔ Inert B q db := by
  simp only [Inert, hu.closed, hu.keyTaken, hu.reclaimable hB h h']

theorem inert_turn {now : Int} {k n : Nat} {db db' : Db} {q : PeriodRow} (hB : B.Sound) (h : LedgerInv db)
    (hturn : expirePeriod B now k db q = .ok (n, db')) : Inert B q db' := by
  obtain ⟨htaken, hfree⟩ := reclaimable_turn hB h hturn
  refine ⟨closed_turn hturn, ?_⟩
  by_cases hk : KeyTaken q.tenantId q.periodId db
  · exact .inr (htaken hk).2
  · exact .inl (hfree hk)

theorem pauseEnded_closed {now : Int} {db : Db} {q : PeriodRow} (hclosed : Closed q.tenantId q.periodId db) :
    pauseEnded now db q = db := by
  refine updateWork_none fun w hw => ?_
  simp only [decide_eq_false_iff_not, not_and, Bool.not_eq_true]
  exact hclosed w hw

theorem expirePeriod_inert {now : Int} {k : Nat} {db : Db} {q : PeriodRow} (hB : B.Sound) (h : TotalsSound db)
    (hq : Inert B q db) : expirePeriod B now k db q = .ok (k, db) := by
  rw [turn_skips hB h hq.2, pauseEnded_closed hq.1]

theorem expirePeriods_inert {now : Int} {db : Db} (hB : B.Sound) (h : TotalsSound db) :
    ∀ {periods : List PeriodRow} {k : Nat}, (∀ q ∈ periods, Inert B q db) →
      expirePeriods B now periods k db = .ok (k, db)
  | [], _, _ => rfl
  | q :: periods, k, hall => by
    simp only [expirePeriods, expirePeriod_inert hB h (hall q List.mem_cons_self), bind, Except.bind]
    exact expirePeriods_inert hB h fun r hr => hall r (List.mem_cons_of_mem _ hr)

/-- The rows stand for different periods. -/
def Distinct (periods : List PeriodRow) : Prop :=
  periods.Pairwise fun a b => ¬(a.tenantId = b.tenantId ∧ a.periodId = b.periodId)

theorem expirePeriods_untouched {now : Int} {periods : List PeriodRow} {k n : Nat} {db db' : Db} {t p : String}
    (hne : ∀ q ∈ periods, ¬(q.tenantId = t ∧ q.periodId = p))
    (h : expirePeriods B now periods k db = .ok (n, db')) : Untouched t p db db' :=
  expirePeriods_preserves (P := Untouched t p db)
    (fun q hq _ _ _ _ h₁ hu => hu.trans (untouched_turn (hne q hq) h₁)) h (.refl t p db)

/-- What a sweep does to a period it visits is what the period's own turn
does, from a database that shows the period as it was. -/
theorem expirePeriods_turn {now : Int} {q : PeriodRow} : ∀ {periods : List PeriodRow} {k n : Nat} {db db' : Db},
    Distinct periods → q ∈ periods → LedgerInv db → expirePeriods B now periods k db = .ok (n, db') →
      ∃ j m db₁ db₂, Untouched q.tenantId q.periodId db db₁ ∧ LedgerInv db₁ ∧
        expirePeriod B now j db₁ q = .ok (m, db₂) ∧ Untouched q.tenantId q.periodId db₂ db'
  | [], _, _, _, _, _, hq, _, _ => by cases hq
  | r :: periods, k, n, db, db', hd, hq, h, hrun => by
    simp only [expirePeriods, bind_ok] at hrun
    obtain ⟨⟨m, db₁⟩, h₁, h₂⟩ := hrun
    obtain ⟨hr, hd⟩ := List.pairwise_cons.1 hd
    rcases List.mem_cons.1 hq with rfl | hq
    · refine ⟨k, m, db, db₁, .refl _ _ _, h, h₁, expirePeriods_untouched (fun s hs hk => ?_) h₂⟩
      exact hr s hs ⟨hk.1.symm, hk.2.symm⟩
    · obtain ⟨j, m', d₁, d₂, hu, hinv, hturn, hu'⟩ :=
        expirePeriods_turn hd hq (h.steps (expirePeriod_steps h₁ : Steps B none db db₁)) h₂
      exact ⟨j, m', d₁, d₂, (untouched_turn (hr q hq) h₁).trans hu, hinv, hturn, hu'⟩

/-! ## The periods the sweep visits -/

theorem identifies_period (t p : String) :
    Table.Identifies fun r : PeriodRow => decide (r.tenantId = t ∧ r.periodId = p) := by
  intro a b ha hb
  simp only [decide_eq_true_eq] at ha hb
  simp [Keyed.clash, ha, hb]

theorem period_ext {db : Db} {a b : PeriodRow} (ha : a ∈ db.periods.rows) (hb : b ∈ db.periods.rows)
    (ht : a.tenantId = b.tenantId) (hp : a.periodId = b.periodId) : a = b :=
  Table.eq_of_identifies (identifies_period b.tenantId b.periodId) ha hb (by simp [ht, hp]) (by simp)

/-- The period can still change: it has a positive total, or captured or ready work. -/
def Changeable (db : Db) (p : PeriodRow) : Prop :=
  0 < (readTotals db p.tenantId p.periodId).balance ∨
    ∃ w ∈ db.work.rows, w.isOpen = true ∧ w.isIn p.tenantId p.periodId = true

theorem positive_total {db : Db} {p : PeriodRow} :
    (∃ r ∈ db.totals.rows, 0 < r.balanceUnits ∧ p.tenantId = r.tenantId ∧ p.periodId = r.periodId) ↔
      0 < (readTotals db p.tenantId p.periodId).balance := by
  unfold readTotals
  constructor
  · rintro ⟨r, hr, hpos, ht, hp⟩
    have hfind := Table.find?_of_mem (identifies_totals p.tenantId p.periodId) hr (by simp [ht, hp])
    rw [hfind]
    exact hpos
  · intro hpos
    split at hpos
    · next r hfind =>
      have hkey := List.find?_some hfind
      simp only [decide_eq_true_eq] at hkey
      exact ⟨r, List.mem_of_find?_eq_some hfind, hpos, hkey.1.symm, hkey.2.symm⟩
    · simp [PeriodTotals.zero] at hpos

theorem mem_changeablePeriods {db : Db} {now : Int} {p : PeriodRow} :
    p ∈ changeablePeriods db now ↔ p ∈ db.periods.rows ∧ p.endsAt ≤ now ∧ Changeable db p := by
  simp only [changeablePeriods, List.mem_insertionSort, List.mem_dedup, List.mem_append, List.mem_flatMap,
    List.mem_filter, decide_eq_true_eq, Changeable, ← positive_total, PaidWorkRow.isIn]
  constructor
  · rintro (⟨r, ⟨hr, hpos⟩, hp, ht, hq, hend⟩ | ⟨w, ⟨hw, hopen⟩, hp, ht, hq, hend⟩)
    · exact ⟨hp, hend, .inl ⟨r, hr, hpos, ht, hq⟩⟩
    · exact ⟨hp, hend, .inr ⟨w, hw, hopen, ht.symm, hq.symm⟩⟩
  · rintro ⟨hp, hend, ⟨r, hr, hpos, ht, hq⟩ | ⟨w, hw, hopen, ht, hq⟩⟩
    · exact .inl ⟨r, ⟨hr, hpos⟩, hp, ht, hq, hend⟩
    · exact .inr ⟨w, ⟨hw, hopen⟩, hp, ht.symm, hq.symm, hend⟩

/-- Different rows of the table stand for different periods. -/
theorem distinct_of_nodup {db : Db} {periods : List PeriodRow} (hnodup : periods.Nodup)
    (hmem : ∀ p ∈ periods, p ∈ db.periods.rows) : Distinct periods := by
  refine hnodup.imp_of_mem fun ha hb hne hkey => hne ?_
  exact period_ext (hmem _ ha) (hmem _ hb) hkey.1 hkey.2

theorem changeablePeriods_distinct (db : Db) (now : Int) : Distinct (changeablePeriods db now) := by
  refine distinct_of_nodup ?_ fun p hp => (mem_changeablePeriods.1 hp).1
  exact (List.perm_insertionSort PeriodRow.le _).nodup_iff.2 (List.nodup_dedup _)

theorem processingInPeriod_nonneg {db : Db} (h : ∀ w ∈ db.work.rows, 0 ≤ w.reservedUnits) (t p : String) :
    0 ≤ db.processingInPeriod t p := by
  refine Table.sumBy_nonneg fun w hw => ?_
  split
  · exact h w hw
  · exact le_refl _

/-- A period that cannot change any more is inert. -/
theorem inert_of_not_changeable {db : Db} (hB : B.Sound) (h : TotalsSound db)
    (hreserved : ∀ w ∈ db.work.rows, 0 ≤ w.reservedUnits) {p : PeriodRow} (hp : ¬Changeable db p) : Inert B p db := by
  simp only [Changeable, not_or, not_exists, not_and] at hp
  constructor
  · intro w hw hin
    by_contra hopen
    exact hp.2 w hw (by simpa using hopen) hin
  · have hpos := processingInPeriod_nonneg hreserved p.tenantId p.periodId
    rw [reclaimable_eq hB h, ← h]
    omega

/-! ## Complete and idempotent -/

/-- Nothing is captured, ready or available in a period that has ended. -/
def ExpiryComplete (B : Backend) (t : Int) (db : Db) : Prop :=
  ∀ p ∈ db.periods.rows, p.endsAt ≤ t →
    Closed p.tenantId p.periodId db ∧ availableInPeriod B db p.tenantId p.periodId = 0

/-- The periods are the same, and those that run on are untouched. -/
def RunningKept (t : Int) (db db' : Db) : Prop :=
  db'.periods = db.periods ∧ ∀ p ∈ db.periods.rows, t < p.endsAt → Untouched p.tenantId p.periodId db db'

/-- A further sweep, no later, inserts nothing and changes nothing. -/
def SweepIdle (B : Backend) (t : Int) (db : Db) : Prop :=
  ∀ t' ≤ t, (reconcileExpiredPeriods B t' db).2 = db ∧ (0 ≤ t' → (reconcileExpiredPeriods B t' db).1 = .ok 0)

/-- No entry of the tenant stands under the key an ended period's expiry needs. -/
def ExpiryUnblocked (B : Backend) (t : Int) (db : Db) : Prop :=
  ∀ p ∈ db.periods.rows, p.endsAt ≤ t → 0 < reclaimable B db p → ¬KeyTaken p.tenantId p.periodId db

theorem available_of_closed {db : Db} {q : PeriodRow} (hclosed : Closed q.tenantId q.periodId db) :
    availableInPeriod B db q.tenantId q.periodId = reclaimable B db q := by
  rw [availableInPeriod, reclaimable, reserved_eq_processing hclosed]

/-- After a sweep every ended period is inert, and what can be reclaimed of it
is nothing, or what it was when its key is taken. -/
theorem sweep_period {sha256 : String → String} {basisPoints : Int → Int → Int} {t : Int} {n : Nat} {db db' : Db}
    (h : LedgerInv db) (hrun : reconcileExpiredPeriodsInTransaction (hotPath sha256 basisPoints) t db = .ok (n, db'))
    {p : PeriodRow} (hp : p ∈ db.periods.rows) (hend : p.endsAt ≤ t) :
    let B := hotPath sha256 basisPoints
    Inert B p db' ∧ (KeyTaken p.tenantId p.periodId db → reclaimable B db' p = reclaimable B db p) ∧
      (¬KeyTaken p.tenantId p.periodId db → reclaimable B db' p = 0) := by
  intro B
  have hB : B.Sound := hotPath_sound sha256 basisPoints
  have h' : LedgerInv db' := h.steps (sweep_steps hrun : Steps B none db db')
  by_cases hch : Changeable db p
  · obtain ⟨j, m, d₁, d₂, hu, hinv, hturn, hu'⟩ :=
      expirePeriods_turn (changeablePeriods_distinct db t) (mem_changeablePeriods.2 ⟨hp, hend, hch⟩) h hrun
    have hinv₂ : LedgerInv d₂ := hinv.steps (expirePeriod_steps hturn : Steps B none d₁ d₂)
    obtain ⟨htaken, hfree⟩ := reclaimable_turn hB hinv hturn
    have hbefore := hu.reclaimable hB h.totals hinv.totals
    have hafter := hu'.reclaimable hB hinv₂.totals h'.totals
    refine ⟨(hu'.inert hB hinv₂.totals h'.totals).2 (inert_turn hB hinv hturn), fun hk => ?_, fun hk => ?_⟩
    · rw [hafter, (htaken (hu.keyTaken.2 hk)).1, hbefore]
    · rw [hafter, hfree fun hk' => hk (hu.keyTaken.1 hk')]
  · -- The sweep does not visit the period, and had nothing to do for it.
    have hu : Untouched p.tenantId p.periodId db db' := by
      refine expirePeriods_untouched (fun q hq hkey => ?_) hrun
      obtain ⟨hqmem, -, hqch⟩ := mem_changeablePeriods.1 hq
      obtain rfl := period_ext hqmem hp hkey.1 hkey.2
      exact hch hqch
    have hinert := inert_of_not_changeable hB h.totals (fun w hw => (h.work w hw).reserved_safe.1) hch
    have hsame := hu.reclaimable hB h.totals h'.totals
    refine ⟨(hu.inert hB h.totals h'.totals).2 hinert, fun _ => hsame, fun hk => ?_⟩
    rw [hsame, hinert.2.resolve_right hk]

theorem reconcile_eq {t : Int} {n : Nat} {db db' : Db} (ht : ValidTime t)
    (h : reconcileExpiredPeriodsInTransaction B t db = .ok (n, db')) :
    reconcileExpiredPeriods B t db = (.ok n, db') := by
  simp only [reconcileExpiredPeriods, transaction, ht.timestamp, bind, Except.bind, h]

/-- **When a sweep expires all there is.** After any run, sweeping at `t` leaves
the periods that run on untouched and nothing for a further sweep to do; it
leaves nothing open or available in an ended period exactly if no entry
stands under a key it needs. -/
theorem expiry_complete_iff (sha256 : String → String) (basisPoints : Int → Int → Int) {db : Db}
    (hreach : Reachable (hotPath sha256 basisPoints) db) {t : Int} (ht : ValidTime t) :
    let B := hotPath sha256 basisPoints
    let db' := (reconcileExpiredPeriods B t db).2
    (ExpiryComplete B t db' ∧ RunningKept t db db' ∧ SweepIdle B t db' ↔ ExpiryUnblocked B t db) ∧
      RunningKept t db db' ∧ SweepIdle B t db' := by
  intro B db'
  have hB : B.Sound := hotPath_sound sha256 basisPoints
  have h : LedgerInv db := hreach.inv
  obtain ⟨n, d, hrun⟩ := sweep_isOk (B := B) t h
  have hdb' : db' = d := by simp only [db', reconcile_eq ht hrun]
  rw [hdb']
  have hperiods := sweep_periods hrun
  have h' : LedgerInv d := h.steps (sweep_steps hrun : Steps B none db d)
  have hkept : RunningKept t db d := by
    refine ⟨hperiods, fun p hp hend => expirePeriods_untouched (fun q hq hkey => ?_) hrun⟩
    obtain ⟨hqmem, hqend, -⟩ := mem_changeablePeriods.1 hq
    obtain rfl := period_ext hqmem hp hkey.1 hkey.2
    omega
  have hidle : SweepIdle B t d := by
    intro t' hle
    by_cases hvalid : ValidTime t'
    · have hnone : expirePeriods B t' (changeablePeriods d t') 0 d = .ok (0, d) := by
        refine expirePeriods_inert hB h'.totals fun q hq => ?_
        obtain ⟨hqmem, hqend, -⟩ := mem_changeablePeriods.1 hq
        exact (sweep_period h hrun (hperiods ▸ hqmem) (hqend.trans hle)).1
      rw [reconcile_eq hvalid hnone]
      exact ⟨rfl, fun _ => rfl⟩
    · refine ⟨transaction_eq_self fun v d' hd => ?_, fun h0 => absurd ⟨h0, hle.trans ht.2⟩ hvalid⟩
      simp only [bind_ok, timestamp_ok] at hd
      obtain ⟨a, ⟨rfl, ha⟩, -⟩ := hd
      exact absurd ha hvalid
  have hcomplete : ExpiryComplete B t d ↔ ExpiryUnblocked B t db := by
    constructor
    · intro hall p hp hend hpos htaken
      obtain ⟨hclosed, hzero⟩ := hall p (hperiods ▸ hp) hend
      have := (sweep_period h hrun hp hend).2.1 htaken
      rw [available_of_closed hclosed] at hzero
      have heq : reclaimable B d p = reclaimable B db p := this
      omega
    · intro hfree p hp hend
      rw [hperiods] at hp
      obtain ⟨⟨hclosed, -⟩, htaken, hnot⟩ := sweep_period h hrun hp hend
      refine ⟨hclosed, ?_⟩
      rw [available_of_closed hclosed]
      by_cases hk : KeyTaken p.tenantId p.periodId db
      · have hle : ¬0 < reclaimable B db p := fun hpos => hfree p hp hend hpos hk
        have hnonneg : 0 ≤ reclaimable B db p := le_max_left _ _
        exact (htaken hk).trans (le_antisymm (not_lt.1 hle) hnonneg)
      · exact hnot hk
  exact ⟨⟨fun hall => hcomplete.1 hall.1, fun hfree => ⟨hcomplete.2 hfree, hkept, hidle⟩⟩, hkept, hidle⟩

namespace Sample

/-- The grant once more, under the key its own expiry needs. -/
def squatting : LedgerOp :=
  .grantAllowance {
    tenantId := "tenant", periodId := "period", startsAt := 0, endsAt := 1000, amountUnits := 10, source := "operator",
    idempotencyKey := "system:expiry:period:through:1", tariffVersion := "v1", auditReason := "granted",
    occurredAt := none } fun _ => 10

/-- The ledger after the grant and admitted work. -/
def admitted : Db := runOps backend [grant, enqueue 5 20] Db.empty

end Sample

/-- The work is paused and the ten units expire. -/
theorem expiry_complete_sample :
    ExpiryComplete Sample.backend 1000 (reconcileExpiredPeriods Sample.backend 1000 Sample.admitted).2 := by
  have hfree : ExpiryUnblocked Sample.backend 1000 Sample.admitted := by
    have hnot : ∀ p ∈ Sample.admitted.periods.rows, ¬KeyTaken p.tenantId p.periodId Sample.admitted := by
      unfold KeyTaken
      decide +kernel
    exact fun p hp _ _ => hnot p hp
  have hreach : Reachable (hotPath id fun _ _ => 0) Sample.admitted := ⟨_, rfl⟩
  exact ((expiry_complete_iff id (fun _ _ => 0) hreach (by decide : ValidTime 1000)).1.2 hfree).1

/-- A caller's key keeps ten units available in a period that ended long ago. -/
theorem squatted_expiry :
    let db := runOps Sample.backend [Sample.squatting] Db.empty
    (reconcileExpiredPeriods Sample.backend 2000 db).1 = .ok 0 ∧
    availableInPeriod Sample.backend (reconcileExpiredPeriods Sample.backend 2000 db).2 "tenant" "period" = 10 ∧
    ((reconcileExpiredPeriods Sample.backend 2000 db).2.period "tenant" "period").map (·.endsAt) = some 1000 := by
  decide +kernel

end Zenod.Phylax
