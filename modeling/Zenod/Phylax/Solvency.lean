/-
Each period of each tenant is an account with reservations: its balance is
the sum of its entries, and its ready and processing work holds units of it.
Every write is a sequence of account steps, and so is a settlement by lease;
a settlement by durable receipt takes a debt. So the ledger is solvent up to
those debts, whatever the run.
-/
import Zenod.Lib.Account
import Zenod.Phylax.Entries

namespace Zenod.Phylax

variable {B : Backend} {u : Option Draw}

/-! ## The account of a period -/

/-- The backend reads the totals the entries sum up to. -/
def Backend.Sound (B : Backend) : Prop :=
  ∀ db, TotalsSound db → ∀ t p, B.periodTotals db t p = sumTotals db t p

theorem hotPath_sound (sha256 : String → String) (basisPoints : Int → Int → Int) :
    (hotPath sha256 basisPoints).Sound := fun _ h => h

theorem reference_sound (sha256 : String → String) (basisPoints : Int → Int → Int) :
    (reference sha256 basisPoints).Sound := fun _ _ _ _ => rfl

def account (db : Db) (t p : String) : Account Int := ⟨(sumTotals db t p).balance, db.reservedInPeriod t p⟩

/-- What a row holds of a period. -/
def PaidWorkRow.heldIn (w : PaidWorkRow) (t p : String) : Int :=
  if w.isIn t p ∧ w.holdsUnits then w.reservedUnits else 0

theorem reservedInPeriod_eq (db : Db) (t p : String) : db.reservedInPeriod t p = db.work.sumBy (·.heldIn t p) := rfl

theorem availableInPeriod_eq {db : Db} (hB : B.Sound) (h : TotalsSound db) (t p : String) :
    availableInPeriod B db t p = (account db t p).free := by
  simp only [availableInPeriod, periodBalance, hB db h, account, Account.free, Account.slack]

theorem RowInv.heldIn_nonneg {db : Db} {w : PaidWorkRow} (h : RowInv db w) (t p : String) : 0 ≤ w.heldIn t p := by
  have hr := h.reserved
  have he := h.estimated
  unfold PaidWorkRow.heldIn
  split
  · next hh =>
    rw [if_pos hh.2] at hr
    exact hr ▸ he.1
  · exact le_refl _

/-- A row that is neither ready nor processing holds nothing. -/
theorem heldIn_eq_zero {w : PaidWorkRow} (h : w.holdsUnits = false) (t p : String) : w.heldIn t p = 0 := by
  simp [PaidWorkRow.heldIn, h]

theorem account_insertEntry {db db' : Db} {input : EntryInput} {row : EntryRow}
    (h : insertEntry db input = .ok (row, db')) (t p : String) :
    account db' t p = ⟨(account db t p).balance + (if row.isIn t p then row.amountUnits else 0),
      (account db t p).held⟩ := by
  have hwork := insertEntry_work h
  simp only [account, sumTotals_insertEntry h, Db.reservedInPeriod, hwork]
  split
  · rfl
  · simp

/-- An entry that belongs to no period moves no account. -/
theorem account_insertEntry_none {db db' : Db} {input : EntryInput} {row : EntryRow}
    (h : insertEntry db input = .ok (row, db')) (hp : input.periodId = none) (t p : String) :
    account db' t p = account db t p := by
  rw [account_insertEntry h, (insertEntry_ok.1 h).1]
  simp [EntryRow.isIn, EntryInput.row, hp]

theorem account_move {db : Db} {w : PaidWorkRow} (hw : w ∈ db.work.rows) {g : PaidWorkRow → PaidWorkRow} {hg}
    (t p : String) :
    account (db.updateWork (fun v => v.id = w.id) g hg) t p =
      ⟨(account db t p).balance, (account db t p).held + ((g w).heldIn t p - w.heldIn t p)⟩ := by
  have hsum : (db.work.update (fun v => v.id = w.id) g hg).sumBy (·.heldIn t p) =
      db.work.sumBy (·.heldIn t p) + ((g w).heldIn t p - w.heldIn t p) :=
    Table.sumBy_update_of_mem (identifies_id w.id) hw (by simp) (by simp) (fun _ h => h) _
  exact Account.ext rfl hsum

/-! ## Steps of the account -/

abbrev AccountSteps : Account Int → Account Int → Prop := Relation.ReflTransGen Account.Step

/-- A row that gives up what it holds and then holds no more than is free. -/
theorem account_rehold {db : Db} {w : PaidWorkRow} (hw : w ∈ db.work.rows) {g : PaidWorkRow → PaidWorkRow} {hg}
    {t p : String} (hheld : 0 ≤ w.heldIn t p)
    (hfree : (g w).heldIn t p ≤
      (⟨(account db t p).balance, (account db t p).held - w.heldIn t p⟩ : Account Int).free) :
    AccountSteps (account db t p) (account (db.updateWork (fun v => v.id = w.id) g hg) t p) := by
  refine .tail (.single (.release (w.heldIn t p) hheld)) ?_
  have hstep := Account.Step.hold ((g w).heldIn t p) hfree
  convert hstep using 1
  rw [account_move hw]
  ext
  · rfl
  · simp only
    omega

/-- An evaluated row holds no more than was free when it was evaluated. -/
theorem heldIn_evaluated {db : Db} {v w : PaidWorkRow} {now : Int} (hB : B.Sound) (h : TotalsSound db)
    (ht : v.tenantId = w.tenantId) (hp : v.periodId = w.periodId) (he : v.estimatedUnits = w.estimatedUnits)
    (t p : String) : (w.evaluated (evaluation B db v now) now).heldIn t p ≤ (account db t p).free := by
  have hready := @evaluation_ready B db v now
  generalize evaluation B db v now = verdict at hready ⊢
  have hfree : 0 ≤ (account db t p).free := le_max_left _ _
  by_cases hin : w.isIn t p = true
  · by_cases hs : verdict.1 = .ready
    · obtain ⟨-, -, -, -, -, hle⟩ := hready hs
      simp only [PaidWorkRow.isIn, decide_eq_true_eq] at hin
      rw [ht, hp, hin.1, hin.2, he, availableInPeriod_eq hB h] at hle
      have : (w.evaluated verdict now).heldIn t p ≤ w.estimatedUnits ∨ (w.evaluated verdict now).heldIn t p = 0 := by
        simp only [PaidWorkRow.heldIn, PaidWorkRow.evaluated, hs, if_true]
        split
        · exact .inl (le_refl _)
        · exact .inr rfl
      omega
    · have : (w.evaluated verdict now).heldIn t p = 0 := by simp [PaidWorkRow.heldIn, PaidWorkRow.evaluated, hs]
      omega
  · have hsame : (w.evaluated verdict now).isIn t p = w.isIn t p := rfl
    have : (w.evaluated verdict now).heldIn t p = 0 := by simp [PaidWorkRow.heldIn, hsame, hin]
    omega

theorem WorkMove.account {db : Db} {w : PaidWorkRow} {g : PaidWorkRow → PaidWorkRow} {hg} (hB : B.Sound)
    (h : LedgerInv db) (hw : w ∈ db.work.rows) (hmove : WorkMove B u db w (g w)) (t p : String) :
    AccountSteps (account db t p) (account (db.updateWork (fun v => v.id = w.id) g hg) t p) := by
  have hheld := (h.work w hw).heldIn_nonneg t p
  -- A move that leaves alone what the row holds.
  have same : (g w).heldIn t p = w.heldIn t p →
      AccountSteps (Phylax.account db t p) (Phylax.account (db.updateWork (fun v => v.id = w.id) g hg) t p) := by
    intro heq
    rw [account_move hw, heq, sub_self, add_zero]
  generalize hgw : g w = w' at hmove
  cases hmove with
  | evaluate now hs =>
    have hzero : w.heldIn t p = 0 :=
      heldIn_eq_zero (by rcases hs with hs | hs <;> simp [PaidWorkRow.holdsUnits, hs]) t p
    refine account_rehold hw hheld ?_
    rw [hgw, hzero, sub_zero]
    exact heldIn_evaluated hB h.totals rfl rfl rfl t p
  | free now db₁ hs hdb =>
    refine account_rehold hw hheld ?_
    have hacc : Phylax.account db₁ t p = ⟨(Phylax.account db t p).balance, (Phylax.account db t p).held - w.heldIn t p⟩ := by
      rw [hdb, account_move hw]
      have : (w.unleased .captured none now).heldIn t p = 0 := heldIn_eq_zero rfl t p
      rw [this, zero_sub, sub_eq_add_neg]
    have hsound : TotalsSound db₁ := by
      rw [hdb]
      exact h.totals
    rw [hgw, ← hacc]
    exact heldIn_evaluated hB hsound rfl rfl rfl t p
  | claim owner token leaseUntil now hs _ _ =>
    refine same ?_
    have hholds : (w.leased owner token.text leaseUntil now).holdsUnits = w.holdsUnits := by
      simp [PaidWorkRow.holdsUnits, PaidWorkRow.leased, hs]
    rw [hgw]
    simp only [PaidWorkRow.heldIn, hholds]
    rfl
  | renew leaseUntil now hs =>
    refine same ?_
    rw [hgw]
    rfl
  | requestCancel requestedAt now hs =>
    refine same ?_
    rw [hgw]
    rfl
  | cancel requestedAt now hs =>
    refine account_rehold hw hheld ?_
    rw [hgw, heldIn_eq_zero rfl]
    exact le_max_left _ _

/-- Open work that is paused releases what it held. -/
theorem account_pause {db : Db} {q : PaidWorkRow → Bool} {reason : PauseReason} {now : Int} {hg} (h : LedgerInv db)
    (t p : String) :
    AccountSteps (account db t p) (account (db.updateWork q (·.unleased .paused (some reason) now) hg) t p) := by
  have hsum : (db.work.update q (·.unleased .paused (some reason) now) hg).sumBy (·.heldIn t p) ≤
      db.work.sumBy (·.heldIn t p) := by
    refine Table.sumBy_update_le fun w hw _ => ?_
    have := (h.work w hw).heldIn_nonneg t p
    exact (heldIn_eq_zero rfl t p).trans_le this
  have hle : (db.updateWork q (·.unleased .paused (some reason) now) hg).reservedInPeriod t p ≤
      db.reservedInPeriod t p := hsum
  have hstep := Account.Step.release (a := account db t p) (db.reservedInPeriod t p -
    (db.updateWork q (·.unleased .paused (some reason) now) hg).reservedInPeriod t p) (by omega)
  refine .single ?_
  convert hstep using 1
  ext
  · rfl
  · simp only [account]
    omega

/-- Once nothing is captured or ready, what a period reserves is what it processes. -/
theorem reserved_eq_processing {db : Db} {t p : String}
    (hclosed : ∀ w ∈ db.work.rows, w.isIn t p = true → w.isOpen = false) :
    db.reservedInPeriod t p = db.processingInPeriod t p := by
  refine Table.sumBy_congr fun w hw => ?_
  by_cases hin : w.isIn t p = true
  · have := hclosed w hw hin
    simp only [PaidWorkRow.isOpen, decide_eq_false_iff_not, not_or] at this
    simp [hin, PaidWorkRow.holdsUnits, this.2]
  · simp [hin]

theorem BookGuard.account {db db' : Db} {input : EntryInput} {row : EntryRow} (hB : B.Sound) (h : LedgerInv db)
    (hguard : BookGuard B db input) (hins : insertEntry db input = .ok (row, db')) (t p : String) :
    AccountSteps (account db t p) (account db' t p) := by
  have hrow := (insertEntry_ok.1 hins).1
  -- Only the account of the entry's own period moves.
  have elsewhere : ∀ q, input.periodId = some q → ¬(input.tenantId = t ∧ q = p) →
      Phylax.account db' t p = Phylax.account db t p := by
    intro q hq hne
    rw [account_insertEntry hins, hrow]
    have : (input.row (db.lastSequence + 1)).isIn t p = false := by
      simpa [EntryRow.isIn, EntryInput.row, hq] using hne
    simp [this]
  have there : ∀ q, input.periodId = some q → input.tenantId = t ∧ q = p →
      Phylax.account db' t p = ⟨(Phylax.account db t p).balance + input.amountUnits, (Phylax.account db t p).held⟩ := by
    intro q hq heq
    rw [account_insertEntry hins, hrow]
    have : (input.row (db.lastSequence + 1)).isIn t p = true := by
      simp [EntryRow.isIn, EntryInput.row, hq, heq]
    rw [if_pos this]
    rfl
  -- What is taken out of the free balance is a spend that owns nothing.
  have spends : ∀ q, input.periodId = some q →
      -input.amountUnits ≤ availableInPeriod B db input.tenantId q →
      AccountSteps (Phylax.account db t p) (Phylax.account db' t p) := by
    intro q hq hle
    by_cases heq : input.tenantId = t ∧ q = p
    · obtain ⟨rfl, rfl⟩ := heq
      rw [there q hq ⟨rfl, rfl⟩]
      rw [availableInPeriod_eq hB h.totals] at hle
      have hstep := Account.Step.spend (a := Phylax.account db input.tenantId q) (-input.amountUnits) 0 (by omega)
      rw [sub_neg_eq_add, sub_zero] at hstep
      exact .single hstep
    · rw [elsewhere q hq heq]
  cases hguard with
  | grant q _ hq hpos =>
    by_cases heq : input.tenantId = t ∧ q = p
    · rw [there q hq heq]
      exact .single (.credit _ hpos.le)
    · rw [elsewhere q hq heq]
  | adjustment q _ hq hle => exact spends q hq hle
  | usage q _ hq _ hle => exact spends q hq hle
  | expiry q _ hq hpos hrest hclosed =>
    refine spends q hq ?_
    rw [hrest, availableInPeriod, reserved_eq_processing hclosed]
    exact le_max_right _ _
  | suspend _ hq _ => rw [account_insertEntry_none hins hq]
  | resume _ hq => rw [account_insertEntry_none hins hq]

/-- **A write is a sequence of account steps, in every period.** -/
theorem Write.account {db db' : Db} (hB : B.Sound) (h : LedgerInv db) (hw : Write B u db db') (t p : String) :
    AccountSteps (account db t p) (account db' t p) := by
  cases hw with
  | period row periods _ _ _ hins => exact .refl
  | book input row _ hguard hins => exact hguard.account hB h hins t p
  | pause q reason now _ => exact account_pause h t p
  | move w g hg hmem hmove => exact hmove.account hB h hmem t p
  | capture row work db₁ now hc hins hdb =>
    have hmem : row ∈ db₁.work.rows := by
      rw [hdb, (Table.insert?_eq_some.1 hins).2]
      simp
    have hzero : row.heldIn t p = 0 := heldIn_eq_zero (by simp [PaidWorkRow.holdsUnits, hc.captured.state]) t p
    -- The captured row holds nothing yet.
    have hacc : Phylax.account db₁ t p = Phylax.account db t p := by
      rw [hdb]
      refine Account.ext rfl ?_
      have := Table.sumBy_insert? hins (·.heldIn t p)
      rw [hzero, add_zero] at this
      exact this
    have hsound : TotalsSound db₁ := by
      rw [hdb]
      exact h.totals
    rw [← hacc]
    refine account_rehold hmem hzero.ge ?_
    rw [hzero, sub_zero]
    exact heldIn_evaluated hB hsound rfl rfl rfl t p

theorem Steps.account {db db' : Db} (hB : B.Sound) (h : LedgerInv db) (hs : Steps B u db db') (t p : String) :
    AccountSteps (account db t p) (account db' t p) := by
  induction hs with
  | refl => exact .refl
  | tail hs hw ih => exact ih.trans (hw.account hB (h.steps hs) t p)

/-! ## Settlements -/

/-- The units a list of entries charges to a period. -/
def charged (entries : List EntryRow) (t p : String) : Int :=
  (entries.map fun e => if e.kind = .usage ∧ e.isIn t p then -e.amountUnits else 0).sum

@[simp] theorem charged_nil (t p : String) : charged [] t p = 0 := rfl

theorem charged_append (es₁ es₂ : List EntryRow) (t p : String) :
    charged (es₁ ++ es₂) t p = charged es₁ t p + charged es₂ t p := by
  simp [charged]

theorem charged_eq_zero {es : List EntryRow} (h : ∀ e ∈ es, e.IsExpiry) (t p : String) :
    charged es t p = 0 := by
  refine List.sum_eq_zero fun x hx => ?_
  obtain ⟨e, he, rfl⟩ := List.mem_map.1 hx
  simp [(h e he).kind]

/-- What a settlement charges, on the account of the work's period. -/
theorem Charge.account {owned : Int} {w : PaidWorkRow} {db db' : Db} {e : EntryRow}
    (h : Charge B owned w db e db') (t p : String) :
    ∃ n, 0 ≤ n ∧ charged (newEntries db db') t p = n ∧
      account db' t p = ⟨(account db t p).balance - n, (account db t p).held⟩ ∧
      (n = 0 ∨ w.tenantId = t ∧ w.periodId = p ∧ n ≤ availableInPeriod B db t p + owned) := by
  cases h with
  | replay _ _ => exact ⟨0, le_refl _, by rw [newEntries_of_eq rfl]; rfl, by simp, .inl rfl⟩
  | book input _ _ hkind ht hp hneg hle hins =>
    have hin : e.isIn t p = decide (w.tenantId = t ∧ w.periodId = p) := by
      rw [(insertEntry_ok.1 hins).1]
      simp [EntryRow.isIn, EntryInput.row, ht, hp]
    have hkind' : e.kind = .usage := by rw [(insertEntry_ok.1 hins).1]; exact hkind
    have hamount : e.amountUnits = input.amountUnits := by rw [(insertEntry_ok.1 hins).1]; rfl
    rw [newEntries_insertEntry hins, account_insertEntry hins]
    by_cases hw : w.tenantId = t ∧ w.periodId = p
    · refine ⟨-input.amountUnits, by omega, by simp [charged, hkind', hin, hw, hamount], ?_, .inr ⟨hw.1, hw.2, ?_⟩⟩
      · simp [hin, hw, hamount]
      · rw [← hw.1, ← hw.2]
        exact hle
    · exact ⟨0, le_refl _, by simp [charged, hin, hw], by simp [hin, hw], .inl rfl⟩

/-- A settled row gives up what it held. -/
theorem account_settle {db db₁ : Db} {w : PaidWorkRow} (hw : w ∈ db.work.rows) (hwork : db₁.work = db.work)
    {g : PaidWorkRow → PaidWorkRow} {hg} (hdone : (g w).holdsUnits = false) (t p : String) :
    account (db₁.updateWork (fun v => v.id = w.id) g hg) t p =
      ⟨(account db₁ t p).balance, (account db₁ t p).held - w.heldIn t p⟩ := by
  rw [account_move (hwork ▸ hw), heldIn_eq_zero hdone, zero_sub, sub_eq_add_neg]

/-- A settlement by lease spends its reservation and what is free, no more. -/
theorem Settle.account_lease {db db' : Db} {w : PaidWorkRow} (hB : B.Sound) (h : LedgerInv db)
    (hs : Settle B w db .lease db') (t p : String) : AccountSteps (account db t p) (account db' t p) := by
  cases hs with
  | lease owner token receipt now e db₁ hw hstate hheld hlive hc =>
    have hheld := (h.work w hw).heldIn_nonneg t p
    obtain ⟨n, hn, -, hacc, hle⟩ := hc.account t p
    rw [account_settle hw (hc.inv h).2.2 rfl, hacc]
    refine .single (.spend n (w.heldIn t p) ?_)
    rcases hle with rfl | ⟨ht, hp, hle⟩
    · have : 0 ≤ (account db t p).free := le_max_left _ _
      omega
    · have : w.heldIn t p = w.reservedUnits := by
        simp [PaidWorkRow.heldIn, PaidWorkRow.isIn, PaidWorkRow.holdsUnits, ht, hp, hstate]
      rw [availableInPeriod_eq hB h.totals] at hle
      omega

/-- A settlement by receipt takes what it charges as a debt. -/
theorem Settle.account_receipt {db db' : Db} {w : PaidWorkRow} (h : LedgerInv db)
    (hs : Settle B w db .receipt db') {a : Account Int} {d : Int} (t p : String)
    (hrun : Account.Run a d (account db t p)) :
    Account.Run a (d + charged (newEntries db db') t p) (account db' t p) := by
  cases hs with
  | receipt receipt now owned e db₁ hw hdone hc =>
    have hheld := (h.work w hw).heldIn_nonneg t p
    obtain ⟨n, hn, hcharged, hacc, -⟩ := hc.account t p
    rw [account_settle hw (hc.inv h).2.2 rfl, hacc]
    have hentries : newEntries db (db₁.updateWork (fun v => v.id = w.id) (·.receipted e.sequence receipt now)
        (PaidWorkRow.keeps fun _ => rfl)) = newEntries db db₁ := rfl
    rw [hentries, hcharged]
    exact hrun.debt n (w.heldIn t p) hn hheld

/-! ## Runs -/

/-- A call of `completePaidWorkFromDurableReceipt`. -/
def LedgerOp.isReceipt : LedgerOp → Bool
  | .completePaidWorkFromDurableReceipt _ _ => true
  | _ => false

/-- The units the run's durable receipts charge to a period. -/
def receiptCharges (B : Backend) : List LedgerOp → Db → String → String → Int
  | [], _, _, _ => 0
  | op :: ops, db, t, p =>
    (if op.isReceipt then charged (newEntries db (op.after B db)) t p else 0) +
      receiptCharges B ops (op.after B db) t p

/-- **A call refines the account of every period**, a durable receipt's charge being a debt. -/
theorem LedgerOp.account (hB : B.Sound) (op : LedgerOp) {db : Db} (h : LedgerInv db) (t p : String)
    {a : Account Int} {d : Int} (hrun : Account.Run a d (account db t p)) :
    Account.Run a (d + if op.isReceipt then charged (newEntries db (op.after B db)) t p else 0)
      (account (op.after B db) t p) := by
  have swept : ∀ {now : Int} {n : Nat} {db'}, reconcileExpiredPeriodsInTransaction B now db = .ok (n, db') →
      LedgerInv db' ∧ Account.Run a d (Phylax.account db' t p) := by
    intro now n db' hs
    have hsteps : Steps B none db db' := sweep_steps hs
    exact ⟨h.steps hsteps, hrun.steps (hsteps.account hB h t p)⟩
  cases hop : op.settles with
  | none =>
    have hno : op.isReceipt = false := by cases op <;> first | rfl | cases hop
    rw [hno, if_neg (by simp), add_zero]
    exact hrun.steps ((op.steps hop db).account hB h t p)
  | some id =>
    cases op with
    | completePaidWork input now =>
      simp only [after_completePaidWork, LedgerOp.isReceipt, Bool.false_eq_true, if_false, add_zero]
      rcases completePaidWork_cases input now h.pointsBack with hdb | ⟨n, db₁, hs, hdb | ⟨w, -, -, -, -, -, hw⟩⟩
      · rw [hdb]
        exact hrun
      · rw [hdb]
        exact (swept hs).2
      · exact (swept hs).2.steps (hw.account_lease hB (swept hs).1 t p)
    | completePaidWorkFromDurableReceipt input now =>
      simp only [after_receipt, LedgerOp.isReceipt, if_true]
      rcases receipt_cases input now h.pointsBack with
        hdb | ⟨n, db₁, hs, hdb | ⟨w, -, -, -, -, -, v, -, -, hw⟩⟩
      · rw [hdb, newEntries_of_eq rfl, charged_nil, add_zero]
        exact hrun
      · rw [hdb, charged_eq_zero (sweep_appends hs).rows.2, add_zero]
        exact (swept hs).2
      · have happ := (sweep_appends hs).mono (Q := fun _ => True) fun _ _ => trivial
        rw [newEntries_trans happ hw.appends, charged_append, charged_eq_zero (sweep_appends hs).rows.2, zero_add]
        exact hw.account_receipt (swept hs).1 t p (swept hs).2
    | _ => cases hop

theorem runOps_account (hB : B.Sound) (t p : String) : ∀ (ops : List LedgerOp) {db : Db} {a : Account Int} {d : Int},
    LedgerInv db → Account.Run a d (account db t p) →
      Account.Run a (d + receiptCharges B ops db t p) (account (runOps B ops db) t p)
  | [], _, _, _, _, hrun => by simpa [receiptCharges] using hrun
  | op :: ops, _, _, _, h, hrun => by
    have := runOps_account hB t p ops (h.after op) (op.account hB h t p hrun)
    rwa [add_assoc] at this

theorem receiptCharges_eq_zero {ops : List LedgerOp} (h : ∀ op ∈ ops, op.isReceipt = false) (db : Db)
    (t p : String) : receiptCharges B ops db t p = 0 := by
  induction ops generalizing db with
  | nil => rfl
  | cons op ops ih =>
    simp only [receiptCharges, h op List.mem_cons_self, Bool.false_eq_true, if_false, zero_add]
    exact ih (fun o ho => h o (List.mem_cons_of_mem _ ho)) _

/-- **The ledger is solvent.** In every run, work reserves its estimate exactly
while it is ready or processing, and the balance of a period falls short of
what is reserved in it by no more than the run's durable receipts charged. -/
theorem ledger_solvent (sha256 : String → String) (basisPoints : Int → Int → Int) (ops : List LedgerOp)
    (t p : String) :
    let B := hotPath sha256 basisPoints
    let db := runOps B ops Db.empty
    (∀ w ∈ db.work.rows, w.reservedUnits =
      if w.state = .ready ∨ w.state = .processing then w.estimatedUnits else 0) ∧
    db.reservedInPeriod t p ≤ (sumTotals db t p).balance + receiptCharges B ops Db.empty t p ∧
    (receiptCharges B ops Db.empty t p = 0 →
      0 ≤ (sumTotals db t p).balance ∧ db.reservedInPeriod t p ≤ (sumTotals db t p).balance) ∧
    ((∀ op ∈ ops, op.isReceipt = false) → receiptCharges B ops Db.empty t p = 0) := by
  intro B db
  have hinv : LedgerInv db := Reachable.inv ⟨ops, rfl⟩
  have hrun := (runOps_account (hotPath_sound sha256 basisPoints) t p ops LedgerInv.empty .refl).solvent
  have hslack : (account Db.empty t p).slack = 0 := rfl
  rw [hslack, min_self, zero_add] at hrun
  have hbound : db.reservedInPeriod t p ≤ (sumTotals db t p).balance + receiptCharges B ops Db.empty t p := by
    simp only [Account.slack, account] at hrun
    simp only [B, db]
    omega
  have hnonneg : 0 ≤ db.reservedInPeriod t p := Table.sumBy_nonneg fun w hw => (hinv.work w hw).heldIn_nonneg t p
  refine ⟨fun w hw => ?_, hbound, fun hzero => ?_, fun hno => receiptCharges_eq_zero hno _ t p⟩
  · rw [(hinv.work w hw).reserved]
    simp [PaidWorkRow.holdsUnits]
  · rw [hzero, add_zero] at hbound
    exact ⟨hnonneg.trans hbound, hbound⟩

end Zenod.Phylax
