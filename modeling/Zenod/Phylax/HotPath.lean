/-
The ledger as the code has it, with maintained totals and a sweep of the
periods that can still change, does what the plain ledger does: the one that
sums all entries and sweeps every ended period. From any counted database the
two sweeps are the same (`hotPath_accounts`), so every method returns the same
and leaves the same database, and so does every run.
-/
import Mathlib.Data.Prod.Lex
import Mathlib.Data.String.Basic
import Zenod.Phylax.Counted
import Zenod.Phylax.Expiry

namespace Zenod.Phylax

/-! ## The order of a sweep -/

/-- The columns the periods are sorted by. -/
def PeriodRow.key (p : PeriodRow) : Int ×ₗ String ×ₗ String := toLex (p.endsAt, toLex (p.tenantId, p.periodId))

theorem PeriodRow.le_iff {a b : PeriodRow} : a.le b ↔ a.key ≤ b.key := by
  simp only [PeriodRow.le, PeriodRow.key, Prod.Lex.toLex_le_toLex, le_iff_lt_or_eq (a := a.periodId)]

instance : Std.Total PeriodRow.le where
  total a b := by simpa only [PeriodRow.le_iff] using le_total a.key b.key

instance : IsTrans PeriodRow PeriodRow.le where
  trans a b c := by simpa only [PeriodRow.le_iff] using le_trans

theorem mem_endedPeriods {db : Db} {now : Int} {p : PeriodRow} :
    p ∈ endedPeriods db now ↔ p ∈ db.periods.rows ∧ p.endsAt ≤ now := by
  simp [endedPeriods]

theorem endedPeriods_nodup (db : Db) (now : Int) : (endedPeriods db now).Nodup := by
  refine (List.perm_insertionSort PeriodRow.le _).nodup_iff.2 (List.Nodup.filter _ ?_)
  refine db.periods.unique.imp fun {a b} hclash heq => ?_
  subst heq
  simp [Keyed.clash] at hclash

/-- The periods a sweep of the hot path visits are those of all ended ones that
can still change, in the same order. -/
theorem changeablePeriods_eq (db : Db) (now : Int) :
    changeablePeriods db now = (endedPeriods db now).filter (· ∈ changeablePeriods db now) := by
  have hnodup : (changeablePeriods db now).Nodup :=
    (List.perm_insertionSort PeriodRow.le _).nodup_iff.2 (List.nodup_dedup _)
  have hsorted : (changeablePeriods db now).Pairwise PeriodRow.le := List.pairwise_insertionSort _ _
  refine List.Perm.eq_of_pairwise (fun a b ha hb h₁ h₂ => ?_) hsorted ((List.pairwise_insertionSort _ _).filter _) ?_
  · have hkey : a.key = b.key := le_antisymm (PeriodRow.le_iff.1 h₁) (PeriodRow.le_iff.1 h₂)
    simp only [PeriodRow.key, EmbeddingLike.apply_eq_iff_eq, Prod.mk.injEq] at hkey
    have hb' := (mem_endedPeriods.1 (List.mem_filter.1 hb).1).1
    exact period_ext (mem_changeablePeriods.1 ha).1 hb' hkey.2.1 hkey.2.2
  · refine (List.perm_ext_iff_of_nodup hnodup ((endedPeriods_nodup db now).filter _)).2 fun p => ?_
    simp only [List.mem_filter, mem_endedPeriods, decide_eq_true_eq]
    exact ⟨fun h => ⟨⟨(mem_changeablePeriods.1 h).1, (mem_changeablePeriods.1 h).2.1⟩, h⟩, fun h => h.2⟩

/-! ## The two sweeps -/

section Sweeps

variable {B : Backend} {sha256 : String → String} {basisPoints : Int → Int → Int}

/-- Inert periods may be left out of a sweep. -/
theorem expirePeriods_filter (hB : B.Sound) {now : Int} {c : PeriodRow → Bool} :
    ∀ {periods : List PeriodRow} {k : Nat} {db : Db}, Distinct periods → Counted db →
      (∀ q ∈ periods, c q = false → Inert B q db) →
        expirePeriods B now (periods.filter c) k db = expirePeriods B now periods k db
  | [], _, _, _, _, _ => rfl
  | q :: periods, k, db, hd, h, hinert => by
    obtain ⟨hq, hd⟩ := List.pairwise_cons.1 hd
    have hrest : ∀ {m : Nat} {db₁ : Db}, expirePeriod B now k db q = .ok (m, db₁) →
        expirePeriods B now (periods.filter c) m db₁ = expirePeriods B now periods m db₁ := by
      intro m db₁ hturn
      have h₁ : Counted db₁ := h.steps (expirePeriod_steps hturn : Steps B none db db₁)
      refine expirePeriods_filter hB hd h₁ fun r hr hc => ?_
      -- The turn of `q` leaves the other periods as they were.
      have hu : Untouched r.tenantId r.periodId db db₁ := untouched_turn (hq r hr) hturn
      exact (hu.inert hB h.totals h₁.totals).2 (hinert r (List.mem_cons_of_mem _ hr) hc)
    by_cases hc : c q = true
    · rw [List.filter_cons_of_pos hc]
      simp only [expirePeriods]
      refine bind_congr_ok ?_
      rintro ⟨m, db₁⟩ hturn
      exact hrest hturn
    · have hturn : expirePeriod B now k db q = .ok (k, db) :=
        expirePeriod_inert hB h.totals (hinert q List.mem_cons_self (by simpa using hc))
      rw [List.filter_cons_of_neg hc, hrest hturn]
      simp only [expirePeriods, hturn]
      rfl

/-- One turn is the same under both accountings. -/
theorem expirePeriod_accounts {now : Int} {k : Nat} {db : Db} {q : PeriodRow} (h : TotalsSound db) :
    expirePeriod (hotPath sha256 basisPoints) now k db q = expirePeriod (reference sha256 basisPoints) now k db q := by
  have h' : TotalsSound (pauseEnded now db q) := h
  have hreclaimable : reclaimable (hotPath sha256 basisPoints) (pauseEnded now db q) q =
      reclaimable (reference sha256 basisPoints) (pauseEnded now db q) q := by
    rw [reclaimable_eq (hotPath_sound _ _) h', reclaimable_eq (reference_sound _ _) h']
  have hentry : expiryEntry (hotPath sha256 basisPoints) now (pauseEnded now db q) q =
      expiryEntry (reference sha256 basisPoints) now (pauseEnded now db q) q := by
    have hsha : (hotPath sha256 basisPoints).sha256 = (reference sha256 basisPoints).sha256 := rfl
    simp only [expiryEntry, hreclaimable, hsha]
  simp only [expirePeriod, hreclaimable, hentry]

theorem expirePeriods_accounts {now : Int} : ∀ {periods : List PeriodRow} {k : Nat} {db : Db}, Counted db →
    expirePeriods (hotPath sha256 basisPoints) now periods k db =
      expirePeriods (reference sha256 basisPoints) now periods k db
  | [], _, _, _ => rfl
  | q :: periods, k, db, h => by
    simp only [expirePeriods, ← expirePeriod_accounts h.totals]
    refine bind_congr_ok ?_
    rintro ⟨m, db₁⟩ hturn
    exact expirePeriods_accounts (h.steps (expirePeriod_steps hturn : Steps (hotPath sha256 basisPoints) none db db₁))

/-- Two ledgers that account alike for every counted database. -/
structure Backend.Accounts (B R : Backend) : Prop where
  sha256 : B.sha256 = R.sha256
  basisPoints : B.basisPoints = R.basisPoints
  totals {db : Db} : Counted db → B.periodTotals db = R.periodTotals db
  sweep {db : Db} (now : Int) : Counted db →
    reconcileExpiredPeriodsInTransaction B now db = reconcileExpiredPeriodsInTransaction R now db

/-- **The hot path accounts as the plain ledger does.** -/
theorem hotPath_accounts (sha256 : String → String) (basisPoints : Int → Int → Int) :
    (hotPath sha256 basisPoints).Accounts (reference sha256 basisPoints) where
  sha256 := rfl
  basisPoints := rfl
  totals h := by
    funext t p
    exact h.totals t p
  sweep {db} now h := by
    have hdistinct : Distinct (endedPeriods db now) :=
      distinct_of_nodup (endedPeriods_nodup db now) fun p hp => (mem_endedPeriods.1 hp).1
    have hinert : ∀ q ∈ endedPeriods db now, decide (q ∈ changeablePeriods db now) = false →
        Inert (hotPath sha256 basisPoints) q db := by
      intro q hq hnot
      obtain ⟨hmem, hend⟩ := mem_endedPeriods.1 hq
      refine inert_of_not_changeable (hotPath_sound _ _) h.totals (fun w hw => (h.kept.work w hw).reserved) fun hch => ?_
      exact of_decide_eq_false hnot (mem_changeablePeriods.2 ⟨hmem, hend, hch⟩)
    calc reconcileExpiredPeriodsInTransaction (hotPath sha256 basisPoints) now db
        = expirePeriods (hotPath sha256 basisPoints) now (changeablePeriods db now) 0 db := rfl
      _ = expirePeriods (hotPath sha256 basisPoints) now
            ((endedPeriods db now).filter (· ∈ changeablePeriods db now)) 0 db := by rw [← changeablePeriods_eq]
      _ = expirePeriods (hotPath sha256 basisPoints) now (endedPeriods db now) 0 db :=
          expirePeriods_filter (hotPath_sound _ _) hdistinct h hinert
      _ = reconcileExpiredPeriodsInTransaction (reference sha256 basisPoints) now db := expirePeriods_accounts h

end Sweeps

/-! ## The methods -/

section Methods

variable {B R : Backend} (hBR : B.Accounts R)

include hBR

theorem available_accounts {db : Db} (h : Counted db) : availableInPeriod B db = availableInPeriod R db := by
  funext t p
  simp only [availableInPeriod, periodBalance, hBR.totals h]

theorem evaluateWork_accounts {db : Db} (h : Counted db) (id : String) (now : Int) :
    evaluateWork B id now db = evaluateWork R id now db := by
  simp only [evaluateWork, evaluation, available_accounts hBR h]

theorem admitUsage_accounts {db : Db} (h : Counted db) (usage : UsageInput Int) (hash : String) (at_ owned : Int) :
    admitUsage B db usage hash at_ owned = admitUsage R db usage hash at_ owned := by
  simp only [admitUsage, available_accounts hBR h]

theorem attemptUsage_accounts {db : Db} (h : Counted db) (usage : UsageInput Int) (hash : String) (at_ owned : Int) :
    attemptUsageInTransaction B db usage hash at_ owned = attemptUsageInTransaction R db usage hash at_ owned := by
  simp only [attemptUsageInTransaction, ← hBR.sweep at_ h]
  refine bind_congr_ok ?_
  rintro ⟨n, db₁⟩ hs
  have h₁ : Counted db₁ := h.steps (sweep_steps hs : Steps B none db db₁)
  simp only [admitUsage_accounts hBR h₁]

theorem evaluateAll_accounts {now : Int} : ∀ {rows : List PaidWorkRow} {ready : Nat} {db : Db}, Counted db →
    evaluateAll B now rows ready db = evaluateAll R now rows ready db
  | [], _, _, _ => rfl
  | row :: rows, ready, db, h => by
    simp only [evaluateAll, ← evaluateWork_accounts hBR h]
    refine bind_congr_ok ?_
    rintro ⟨r, db₁⟩ he
    exact evaluateAll_accounts (h.steps (evaluateWork_steps he : Steps B none db db₁))

theorem reclaimLease_accounts {now : Int} {changed : Nat} {db : Db} {row : PaidWorkRow} (h : Counted db) :
    reclaimLease B now changed db row = reclaimLease R now changed db row := by
  simp only [reclaimLease]
  split
  · rfl
  split
  · rw [evaluateWork_accounts hBR (h.unlease _ _ _ _)]
  · rfl

theorem reclaimLeases_accounts {now : Int} : ∀ {rows : List PaidWorkRow} {changed : Nat} {db : Db}, Counted db →
    reclaimLeases B now rows changed db = reclaimLeases R now rows changed db
  | [], _, _, _ => rfl
  | row :: rows, changed, db, h => by
    simp only [reclaimLeases, ← reclaimLease_accounts hBR h]
    refine bind_congr_ok ?_
    rintro ⟨n, db₁⟩ hr
    exact reclaimLeases_accounts (h.steps (reclaimLease_steps hr : Steps B none db db₁))

theorem reclaim_accounts {db : Db} (h : Counted db) (now : Int) (tenantId : Option String) :
    reconcileExpiredPaidWorkInTransaction B now tenantId db =
      reconcileExpiredPaidWorkInTransaction R now tenantId db := reclaimLeases_accounts hBR h

theorem adjustAllowance_accounts {db : Db} (h : Counted db) (input : AdjustInput (Option Int)) (now : Nat → Int) :
    adjustAllowance B input now db = adjustAllowance R input now db := by
  simp only [adjustAllowance]
  refine transaction_congr ?_
  simp only [hBR.sha256, available_accounts hBR h]

theorem recordUsage_accounts {db : Db} (h : Counted db) (input : UsageInput (Option Int)) (now : Nat → Int) :
    recordUsage B input now db = recordUsage R input now db := by
  simp only [recordUsage]
  refine congrArg throwing (transaction_congr ?_)
  simp only [hBR.sha256, attemptUsage_accounts hBR h]

theorem admitPaidWork_accounts {db : Db} (h : Counted db) (input : AdmitInput (Option Int)) (now : Nat → Int)
    (uuid : Uuid) : admitPaidWork B input now uuid.text db = admitPaidWork R input now uuid.text db := by
  simp only [admitPaidWork]
  refine transaction_congr ?_
  simp only [hBR.sha256, ← hBR.sweep _ h]
  refine bind_congr_ok fun n hn => bind_congr_ok ?_
  rintro ⟨k, db₁⟩ hs
  have h₁ : Counted db₁ := h.steps (sweep_steps hs : Steps B none db db₁)
  simp only [evaluateWork_accounts hBR h₁]
  split
  · rfl
  split
  · rfl
  next work hins =>
  rw [evaluateWork_accounts hBR (h₁.capture (AdmitInput.normalize_ok hn _ _ _) hins)]

theorem resumePaused_accounts {db : Db} (h : Counted db) (tenantId : String) (at_ : Int) :
    resumePaused B tenantId at_ db = resumePaused R tenantId at_ db := by
  simp only [resumePaused]
  refine transaction_congr (bind_congr_ok fun t _ => bind_congr_ok fun now _ => ?_)
  rw [← hBR.sweep _ h]
  refine bind_congr_ok ?_
  rintro ⟨k, db₁⟩ hs
  exact evaluateAll_accounts hBR (h.steps (sweep_steps hs : Steps B none db db₁))

theorem reconcileExpiredPeriods_accounts {db : Db} (h : Counted db) (at_ : Int) :
    reconcileExpiredPeriods B at_ db = reconcileExpiredPeriods R at_ db := by
  simp only [reconcileExpiredPeriods]
  exact transaction_congr (bind_congr_ok fun now _ => hBR.sweep now h)

theorem reconcileExpiredPaidWork_accounts {db : Db} (h : Counted db) (at_ : Int) :
    reconcileExpiredPaidWork B at_ db = reconcileExpiredPaidWork R at_ db := by
  simp only [reconcileExpiredPaidWork]
  exact transaction_congr (bind_congr_ok fun now _ => reclaim_accounts hBR h now none)

theorem claimNextPaidWork_accounts {db : Db} (h : Counted db) (tenantId workerId : String) (leaseMs at_ : Int)
    (token : String) :
    claimNextPaidWork B tenantId workerId leaseMs at_ token db =
      claimNextPaidWork R tenantId workerId leaseMs at_ token db := by
  simp only [claimNextPaidWork]
  refine transaction_congr (bind_congr_ok fun t _ => bind_congr_ok fun o _ => bind_congr_ok fun now _ =>
    bind_congr_ok fun lease _ => ?_)
  rw [← reclaim_accounts hBR h]
  refine bind_congr_ok ?_
  rintro ⟨k, db₁⟩ hr
  rw [← hBR.sweep _ (h.steps (reclaim_steps hr : Steps B none db db₁))]

theorem claimPaidWork_accounts {db : Db} (h : Counted db) (workId tenantId workerId : String) (leaseMs at_ : Int)
    (token : String) :
    claimPaidWork B workId tenantId workerId leaseMs at_ token db =
      claimPaidWork R workId tenantId workerId leaseMs at_ token db := by
  simp only [claimPaidWork]
  refine transaction_congr (bind_congr_ok fun wid _ => bind_congr_ok fun t _ => bind_congr_ok fun o _ =>
    bind_congr_ok fun now _ => bind_congr_ok fun lease _ => ?_)
  split
  · rfl
  split
  · rfl
  rw [← reclaim_accounts hBR h]
  refine bind_congr_ok ?_
  rintro ⟨k, db₁⟩ hr
  have h₁ : Counted db₁ := by
    split at hr
    · exact h.steps (reclaim_steps hr : Steps B none db db₁)
    · obtain ⟨-, rfl⟩ := Prod.mk.inj (Except.ok.inj hr)
      exact h
  rw [← hBR.sweep _ h₁]

theorem releasePaidWorkForRetry_accounts {db : Db} (h : Counted db) (input : LeaseInput) (now : Nat → Int) :
    releasePaidWorkForRetry B input now db = releasePaidWorkForRetry R input now db := by
  simp only [releasePaidWorkForRetry]
  refine transaction_congr (bind_congr_ok fun wid _ => bind_congr_ok fun t _ => bind_congr_ok fun o _ =>
    bind_congr_ok fun token _ => ?_)
  simp only [evaluateWork_accounts hBR (h.unlease _ _ _ _)]

theorem completePaidWork_accounts {db : Db} (h : Counted db) (input : CompleteInput) (now : Nat → Int) :
    completePaidWork B input now db = completePaidWork R input now db := by
  simp only [completePaidWork]
  refine congrArg throwing (transaction_congr ?_)
  simp only [replayCompletion, settleLease, hBR.sha256, attemptUsage_accounts hBR h]

theorem completeFromReceipt_accounts {db : Db} (h : Counted db) (input : ReceiptInput) (now : Nat → Int) :
    completePaidWorkFromDurableReceipt B input now db = completePaidWorkFromDurableReceipt R input now db := by
  simp only [completePaidWorkFromDurableReceipt]
  refine congrArg throwing (transaction_congr ?_)
  simp only [settleReceipt, hBR.sha256, attemptUsage_accounts hBR h]

/-- A method returns the same and leaves the same, whichever way the ledger accounts. -/
theorem LedgerOp.run_accounts {db : Db} (h : Counted db) (op : LedgerOp) : op.run B db = op.run R db := by
  cases op with
  | grantAllowance input now => simp only [LedgerOp.run, Phylax.grantAllowance, hBR.sha256]
  | adjustAllowance input now => simp only [LedgerOp.run, adjustAllowance_accounts hBR h]
  | recordUsage input now => simp only [LedgerOp.run, recordUsage_accounts hBR h]
  | suspendTenant input now => simp only [LedgerOp.run, Phylax.suspendTenant, control, hBR.sha256]
  | resumeTenant input now => simp only [LedgerOp.run, Phylax.resumeTenant, control, hBR.sha256]
  | reconcileExpiredPeriods at_ => simp only [LedgerOp.run, reconcileExpiredPeriods_accounts hBR h]
  | admitPaidWork input now uuid => simp only [LedgerOp.run, admitPaidWork_accounts hBR h]
  | resumePaused tenantId at_ => simp only [LedgerOp.run, resumePaused_accounts hBR h]
  | reconcileExpiredPaidWork at_ => simp only [LedgerOp.run, reconcileExpiredPaidWork_accounts hBR h]
  | claimNextPaidWork tenantId workerId leaseMs at_ uuid => simp only [LedgerOp.run, claimNextPaidWork_accounts hBR h]
  | claimPaidWork workId tenantId workerId leaseMs at_ uuid => simp only [LedgerOp.run, claimPaidWork_accounts hBR h]
  | renewPaidWorkLease input leaseMs now => simp only [LedgerOp.run]
  | releasePaidWorkForRetry input now => simp only [LedgerOp.run, releasePaidWorkForRetry_accounts hBR h]
  | cancelPaidWork input now => simp only [LedgerOp.run]
  | completePaidWork input now => simp only [LedgerOp.run, completePaidWork_accounts hBR h]
  | completePaidWorkFromDurableReceipt input now => simp only [LedgerOp.run, completeFromReceipt_accounts hBR h]

theorem customerProjection_accounts {db : Db} (h : Counted db) (tenantId : String) (at_ : Int) :
    customerProjection B tenantId at_ db = customerProjection R tenantId at_ db := by
  simp only [customerProjection, hBR.totals h, hBR.basisPoints]

theorem runOps_accounts {db : Db} (h : Counted db) (ops : List LedgerOp) : runOps B ops db = runOps R ops db := by
  induction ops generalizing db with
  | nil => rw [runOps_nil, runOps_nil]
  | cons op ops ih =>
    have hop : op.after B db = op.after R db := congrArg Prod.snd (LedgerOp.run_accounts hBR h op)
    rw [runOps_cons, runOps_cons, ← hop]
    exact ih (h.after op)

end Methods

/-! ## The operator's figures -/

theorem mem_entriesOf {db : Db} {t p : String} {e : EntryRow} :
    e ∈ db.entriesOf t (some p) ↔ e ∈ db.entries.rows ∧ e.isIn t p = true := by
  simp [Db.entriesOf, EntryRow.isIn]

/-- The figures of a period, entry by entry. -/
theorem sumTotals_entriesOf (db : Db) (t p : String) :
    (sumTotals db t p).allocated = sumOfKind (db.entriesOf t (some p)) .grant +
      sumOfKind (db.entriesOf t (some p)) .adjustment + sumOfKind (db.entriesOf t (some p)) .expiry ∧
    (sumTotals db t p).used = -sumOfKind (db.entriesOf t (some p)) .usage := by
  have hrows : db.entries.rows.filter (·.isIn t p) = db.entriesOf t (some p) :=
    List.filter_congr fun e _ => by simp [EntryRow.isIn]
  simp only [sumTotals, Table.sumBy_filter, hrows]
  generalize db.entriesOf t (some p) = rows
  induction rows with
  | nil => exact ⟨rfl, rfl⟩
  | cons e rows ih =>
    obtain ⟨ih₁, ih₂⟩ := ih
    simp only [List.map_cons, List.sum_cons, sumOfKind, List.filter_cons, EntryRow.totals] at ih₁ ih₂ ⊢
    cases e.kind <;> simp <;> omega

/-- What usage and expiry took away is counted as units. -/
theorem sumOfKind_spends {rows : List EntryRow} (h : ∀ e ∈ rows, e.Spends) {kind : EntryKind}
    (hkind : kind = .usage ∨ kind = .expiry) : sumOfKind rows kind ≤ 0 := by
  induction rows with
  | nil => exact le_refl _
  | cons e rows ih =>
    have hrows := ih fun r hr => h r (List.mem_cons_of_mem _ hr)
    have he := h e List.mem_cons_self
    simp only [sumOfKind, List.filter_cons] at hrows ⊢
    split
    · next hk =>
      have := he ((of_decide_eq_true hk).symm ▸ hkind)
      simp only [List.map_cons, List.sum_cons]
      omega
    · exact hrows

/-- The customer's figures are the operator's. -/
theorem customerProjection_operator {B : Backend} (hB : B.Sound) {db : Db} (h : Counted db) {tenantId p : String}
    {at_ : Int} {c : CustomerProjection} (hc : customerProjection B tenantId at_ db = .ok c)
    (hp : c.periodId = some p) :
    ∃ o, operatorProjection tenantId (some p) db = .ok o ∧
      c.allocatedUnits = o.grantedUnits + o.adjustedUnits - o.expiredUnits ∧ c.usedUnits = o.usedUnits := by
  simp only [customerProjection, bind_ok] at hc
  obtain ⟨t, ht, now, -, hc⟩ := hc
  split at hc
  · obtain rfl := pure_ok.1 hc
    cases hp
  next period hperiod =>
  obtain rfl := pure_ok.1 hc
  simp only [Option.some.injEq] at hp
  subst hp
  have hmem : period ∈ db.periods.rows := by
    have := List.mem_of_mem_head? hperiod
    rw [List.mem_insertionSort] at this
    exact (List.mem_filter.1 this).1
  have hnamed := h.kept.named period hmem
  obtain ⟨hallocated, hused⟩ := sumTotals_entriesOf db t period.periodId
  have hspends : ∀ e ∈ db.entriesOf t (some period.periodId), e.Spends :=
    fun e he => h.kept.spends e (mem_entriesOf.1 he).1
  have hexpiry := sumOfKind_spends hspends (.inr rfl)
  have husage := sumOfKind_spends hspends (.inl rfl)
  simp only [operatorProjection, ht, if_neg hnamed.2.1, hnamed.required, hB db h.totals]
  refine ⟨_, rfl, ?_, ?_⟩
  · simp only [hallocated]
    omega
  · simp only [hused]
    omega

/-! ## Every run -/

/-- **The hot path refines the plain ledger**, which never reads a totals row.
From a new database, or an old one opened by this code, every run leaves the
same database under both accountings; in it every method returns and leaves
the same, and the customer is shown the same: what the operator's sums over
all entries come to. -/
theorem hotPath_refines (sha256 : String → String) (basisPoints : Int → Int → Int) (old : Option LegacyDb)
    (ops : List LedgerOp) :
    let hot := hotPath sha256 basisPoints
    let plain := reference sha256 basisPoints
    let db := runOps hot ops (openLedger old)
    db = runOps plain ops (openLedger old) ∧ (∀ op : LedgerOp, op.run hot db = op.run plain db) ∧
    (∀ tenantId at_, customerProjection hot tenantId at_ db = customerProjection plain tenantId at_ db) ∧
    ∀ tenantId at_ p c, customerProjection hot tenantId at_ db = .ok c → c.periodId = some p →
      ∃ o, operatorProjection tenantId (some p) db = .ok o ∧
        c.allocatedUnits = o.grantedUnits + o.adjustedUnits - o.expiredUnits ∧ c.usedUnits = o.usedUnits := by
  intro hot plain db
  have hBR : hot.Accounts plain := hotPath_accounts sha256 basisPoints
  have hopen : Counted (openLedger old) := openLedger_counted old
  have h : Counted db := runOps_counted ops hopen
  refine ⟨runOps_accounts hBR hopen ops, fun op => LedgerOp.run_accounts hBR h op,
    fun tenantId at_ => customerProjection_accounts hBR h tenantId at_, fun tenantId at_ p c hc hp => ?_⟩
  exact customerProjection_operator (hotPath_sound sha256 basisPoints) h hc hp

end Zenod.Phylax
