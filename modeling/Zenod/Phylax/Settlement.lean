/-
When a completion goes through. A usage no entry answers for is booked exactly
when its event lies in the period it was admitted to, and it is accepted
within that period or owns a reservation (`Admissible`), and the units are
there. From this: when the live claim of a work settles it, and when a durable
receipt does.
-/
import Zenod.Phylax.Fencing

namespace Zenod.Phylax

variable {B : Backend}

/-! ## Inserts and sweeps that cannot fail -/

/-- An entry whose key is new to the tenant, and its usage event if it has one, is inserted. -/
theorem insertEntry_fresh {db : Db} (h : Ordered db) (input : EntryInput)
    (hkey : ∀ e ∈ db.entries.rows, e.tenantId = input.tenantId → e.idempotencyKey ≠ input.idempotencyKey)
    (hevent : ∀ e ∈ db.entries.rows, e.tenantId = input.tenantId → e.usageEvent.isSome = true →
      e.usageEvent ≠ (input.row (db.lastSequence + 1)).usageEvent) :
    ∃ row db', insertEntry db input = .ok (row, db') := by
  have hnew : ∀ e ∈ db.entries.rows, Keyed.clash e (input.row (db.lastSequence + 1)) = false := by
    intro e he
    have hseq : e.sequence ≠ db.lastSequence + 1 := by
      have := h.le_last e he
      omega
    simp only [Keyed.clash, Bool.or_eq_false_iff, Bool.and_eq_false_iff, beq_eq_false_iff_ne]
    refine ⟨hseq, ?_⟩
    by_cases ht : e.tenantId = input.tenantId
    · refine .inr ⟨hkey e he ht, ?_⟩
      by_cases hs : e.usageEvent.isSome = true
      · exact .inr (hevent e he ht hs)
      · exact .inl (by simpa using hs)
    · exact .inl ht
  obtain ⟨entries, hins, -⟩ := Table.insert?_isSome hnew
  exact ⟨_, _, insertEntry_ok.2 ⟨rfl, entries, hins, rfl⟩⟩

theorem entryByIdempotency_none {db : Db} {tenantId key : String} :
    db.entryByIdempotency tenantId key = none ↔
      ∀ e ∈ db.entries.rows, e.tenantId = tenantId → e.idempotencyKey ≠ key := by
  simp [Db.entryByIdempotency, List.find?_eq_none]

theorem usageByProviderEvent_none {db : Db} {tenantId event operation : String} :
    db.usageByProviderEvent tenantId event operation = none ↔
      ∀ e ∈ db.entries.rows, e.tenantId = tenantId → e.usageEvent ≠ some (event, operation) := by
  simp [Db.usageByProviderEvent, List.find?_eq_none]

theorem expirePeriod_isOk (now : Int) (inserted : Nat) (period : PeriodRow) {db : Db} (h : Ordered db) :
    ∃ n db', expirePeriod B now inserted db period = .ok (n, db') := by
  simp only [expirePeriod]
  split
  · exact ⟨_, _, rfl⟩
  split
  · exact ⟨_, _, rfl⟩
  next hnone =>
  have hord : Ordered (pauseEnded now db period) := ⟨h.sorted, h.le_last⟩
  obtain ⟨row, db', hins⟩ := insertEntry_fresh hord (expiryEntry B now (pauseEnded now db period) period)
    (entryByIdempotency_none.1 hnone) fun e _ _ hs heq => by
      rw [heq] at hs
      simp [EntryRow.usageEvent, EntryInput.row, expiryEntry] at hs
  exact ⟨inserted + 1, db', by simp only [hins, bind, Except.bind, pure, Except.pure]⟩

theorem expirePeriods_isOk (now : Int) : ∀ (periods : List PeriodRow) (inserted : Nat) {db : Db}, LedgerInv db →
    ∃ n db', expirePeriods B now periods inserted db = .ok (n, db')
  | [], inserted, db, _ => ⟨inserted, db, rfl⟩
  | period :: periods, inserted, db, h => by
    obtain ⟨m, db₁, h₁⟩ : ∃ m db₁, expirePeriod B now inserted db period = .ok (m, db₁) :=
      expirePeriod_isOk now inserted period h.ordered
    obtain ⟨n, db', h₂⟩ : ∃ n db', expirePeriods B now periods m db₁ = .ok (n, db') :=
      expirePeriods_isOk now periods m (h.steps (expirePeriod_steps h₁ : Steps B none db db₁))
    exact ⟨n, db', by simp only [expirePeriods, h₁, bind, Except.bind, h₂]⟩

/-- The sweep never fails. -/
theorem sweep_isOk (now : Int) {db : Db} (h : LedgerInv db) :
    ∃ n db', reconcileExpiredPeriodsInTransaction B now db = .ok (n, db') :=
  expirePeriods_isOk now _ 0 h

/-- The sweep leaves the periods alone. -/
theorem sweep_periods {now : Int} {n : Nat} {db db' : Db}
    (h : reconcileExpiredPeriodsInTransaction B now db = .ok (n, db')) : db'.periods = db.periods := by
  refine sweep_preserves (fun d => d.periods = db.periods) (fun p _ _ d d' h₁ hd => ?_) h rfl
  rcases expirePeriod_cases h₁ with rfl | ⟨row, -, hins⟩
  · exact hd
  · obtain ⟨-, entries, -, rfl⟩ := insertEntry_ok.1 hins
    exact hd

/-! ## Usage no entry answers for -/

/-- The keys the sweep books under start with `system:expiry:`. -/
theorem ne_expiryKey {key : String} (h : key.toList.take 14 ≠ "system:expiry:".toList) (p : String) (n : Nat) :
    key ≠ expiryKey p n := by
  have hkey : expiryKey p n = "system:expiry:" ++ p ++ ":through:" ++ toString n := rfl
  rintro rfl
  apply h
  rw [hkey, String.toList_append, String.toList_append, String.toList_append, List.append_assoc, List.append_assoc]
  rfl

theorem IsExpiry_not_answers {e : EntryRow} {usage : UsageInput Int} (he : e.IsExpiry)
    (hkey : ∀ p n, usage.idempotencyKey ≠ expiryKey p n) : ¬Answers e usage := by
  rintro ⟨-, hk | hev⟩
  · obtain ⟨p, n, hp⟩ := he.key
    exact hkey p n (hk ▸ hp)
  · simp [EntryRow.usageEvent, he.kind] at hev

/-- The usage is booked by no entry of the tenant, nor by the sweep. -/
structure Unanswered (db : Db) (usage : UsageInput Int) : Prop where
  fresh : ∀ e ∈ db.entries.rows, ¬Answers e usage
  key : ∀ p n, usage.idempotencyKey ≠ expiryKey p n

theorem Unanswered.sweep {now : Int} {n : Nat} {db db' : Db} {usage : UsageInput Int} (h : Unanswered db usage)
    (hs : reconcileExpiredPeriodsInTransaction B now db = .ok (n, db')) : Unanswered db' usage := by
  refine ⟨fun e he => ?_, h.key⟩
  rw [(sweep_appends hs).rows.1, List.mem_append] at he
  rcases he with he | he
  · exact h.fresh e he
  · exact IsExpiry_not_answers ((sweep_appends hs).rows.2 e he) h.key

theorem attemptUsage_unanswered {db : Db} {usage : UsageInput Int} {hash : String} {acceptedAt owned : Int} {n : Nat}
    {db₁ : Db} (hs : reconcileExpiredPeriodsInTransaction B acceptedAt db = .ok (n, db₁))
    (hfresh : Unanswered db usage) :
    attemptUsageInTransaction B db usage hash acceptedAt owned = admitUsage B db₁ usage hash acceptedAt owned := by
  have h := hfresh.sweep hs
  have hidem : db₁.entryByIdempotency usage.tenantId usage.idempotencyKey = none :=
    entryByIdempotency_none.2 fun e he ht hk => h.fresh e he ⟨ht, .inl hk⟩
  have hevent : db₁.usageByProviderEvent usage.tenantId usage.providerEventId usage.operation = none :=
    usageByProviderEvent_none.2 fun e he ht hk => h.fresh e he ⟨ht, .inr hk⟩
  simp only [attemptUsageInTransaction, hs, bind, Except.bind, hidem, hevent]

/-- The event lies in the period, and so does its acceptance unless the usage owns a reservation. -/
def Admissible (p : PeriodRow) (occurredAt acceptedAt owned : Int) : Prop :=
  (p.startsAt ≤ occurredAt ∧ occurredAt < p.endsAt) ∧ (owned ≠ 0 ∨ p.startsAt ≤ acceptedAt ∧ acceptedAt < p.endsAt)

instance (p : PeriodRow) (occurredAt acceptedAt owned : Int) : Decidable (Admissible p occurredAt acceptedAt owned) := by
  unfold Admissible
  infer_instance

theorem admitUsage_refuses {db : Db} {usage : UsageInput Int} {hash : String} {acceptedAt owned : Int} {p : PeriodRow}
    (hp : db.period usage.tenantId usage.periodId = some p)
    (hnot : ¬Admissible p usage.occurredAt acceptedAt owned) :
    admitUsage B db usage hash acceptedAt owned =
      .ok (.error (.error "usage requires an active allowance period"), db) := by
  unfold admitUsage
  rw [hp]
  simp only
  rw [if_pos]
  unfold Admissible at hnot
  omega

theorem admitUsage_books {db : Db} {usage : UsageInput Int} {hash : String} {acceptedAt owned : Int} {p : PeriodRow}
    (h : Ordered db) (hfresh : Unanswered db usage) (hp : db.period usage.tenantId usage.periodId = some p)
    (hadm : Admissible p usage.occurredAt acceptedAt owned) (howned : 0 ≤ owned ∧ Js.isSafeInteger owned = true)
    (hamount : usage.amountUnits ≤ owned) :
    ∃ row db', insertEntry db (usageEntry usage hash acceptedAt) = .ok (row, db') ∧
      admitUsage B db usage hash acceptedAt owned = .ok (.ok ⟨entry row, false⟩, db') := by
  have hunits : units owned "ownedReservationUnits" ⟨false, true⟩ = .ok owned :=
    units_ok.2 ⟨rfl, howned.2, by simp, fun _ => howned.1⟩
  have hav : 0 ≤ availableInPeriod B db usage.tenantId usage.periodId := le_max_left _ _
  obtain ⟨row, db', hins⟩ := insertEntry_fresh h (usageEntry usage hash acceptedAt)
    (fun e he ht hk => hfresh.fresh e he ⟨ht, .inl hk⟩) fun e he ht _ hk => hfresh.fresh e he ⟨ht, .inr hk⟩
  refine ⟨row, db', hins, ?_⟩
  unfold admitUsage
  rw [hp]
  simp only
  rw [if_neg (by unfold Admissible at hadm; omega), hunits]
  simp only [bind, Except.bind]
  rw [if_neg (by omega), hins]
  rfl

/-! ## The live claim -/

/-- The call `db` to `db'` booked one usage of the work, of `amountUnits`, and
left the work done with it. -/
def SettledWith (db db' : Db) (w : PaidWorkRow) (amountUnits : Int) (receipt : String) : Prop :=
  ∃ e, (newEntries db db').filter (·.kind = .usage) = [e] ∧ e.tenantId = w.tenantId ∧
    e.periodId = some w.periodId ∧ e.amountUnits = -amountUnits ∧
    ∃ v ∈ db'.work.rows, v.id = w.id ∧ v.state = .done ∧ v.usageEntrySequence = some e.sequence ∧
      v.providerReceiptId = some receipt ∧ v.reservedUnits = 0

/-- The usage entries a sweep and a booking append: the booked one. -/
theorem filter_newEntries {now : Int} {n : Nat} {db db₁ db₂ : Db} {input : EntryInput} {row : EntryRow}
    (hs : reconcileExpiredPeriodsInTransaction B now db = .ok (n, db₁)) (hkind : input.kind = .usage)
    (hins : insertEntry db₁ input = .ok (row, db₂)) :
    (newEntries db db₂).filter (·.kind = .usage) = [row] := by
  have hkind' : row.kind = .usage := by
    rw [(insertEntry_ok.1 hins).1]
    exact hkind
  have h₁ : Appends (fun _ => True) db db₁ := (sweep_appends hs).mono fun _ _ => trivial
  have hnone : (newEntries db db₁).filter (·.kind = .usage) = [] := by
    rw [List.filter_eq_nil_iff]
    intro e he
    simp [((sweep_appends hs).rows.2 e he).kind]
  rw [newEntries_trans h₁ (appends_insertEntry hins trivial), newEntries_insertEntry hins, List.filter_append, hnone]
  simp [hkind']

theorem settleLease_refused {db db₁ : Db} {w : PaidWorkRow} {owner token : String} {usage : UsageInput Int}
    {at_ : Int} {e : LedgerError} (hstate : w.state = .processing) (hheld : w.leaseOwner = some owner ∧ w.leaseToken = some token)
    (hlive : w.leaseLive at_ = true)
    (hattempt : attemptUsageInTransaction B db usage (payloadHash B.sha256 usage.payload) at_ w.reservedUnits =
      .ok (.error e, db₁)) :
    settleLease B db w owner token usage at_ = .ok (.error e, db₁) := by
  simp [settleLease, hstate, hheld, hlive, hattempt, bind, Except.bind, pure, Except.pure]

theorem settleLease_booked {db db₁ : Db} {w : PaidWorkRow} {owner token : String} {usage : UsageInput Int}
    {at_ : Int} {m : LedgerMutation} (hstate : w.state = .processing)
    (hheld : w.leaseOwner = some owner ∧ w.leaseToken = some token) (hlive : w.leaseLive at_ = true)
    (hnone : w.usageEntrySequence = none) (hw : w ∈ db₁.work.rows)
    (hattempt : attemptUsageInTransaction B db usage (payloadHash B.sha256 usage.payload) at_ w.reservedUnits =
      .ok (.ok m, db₁)) :
    let done := w.completed owner token m.entry.sequence usage.providerEventId at_
    settleLease B db w owner token usage at_ = .ok (.ok ⟨paidWork done, m⟩,
      db₁.updateWork (fun v => v.id = w.id) (·.completed owner token m.entry.sequence usage.providerEventId at_)
        (PaidWorkRow.keeps fun _ => rfl)) := by
  intro done
  have hmine : db₁.updateWork (fun v => v.id = w.id ∧ v.state = .processing ∧ v.heldBy owner token ∧ v.leaseLive at_)
      (·.completed owner token m.entry.sequence usage.providerEventId at_) (PaidWorkRow.keeps fun _ => rfl) =
      db₁.updateWork (fun v => v.id = w.id) (·.completed owner token m.entry.sequence usage.providerEventId at_)
        (PaidWorkRow.keeps fun _ => rfl) := by
    refine updateWork_mine hw (by simp [hstate, hheld, hlive, PaidWorkRow.heldBy]) fun v hv => ?_
    simp only [decide_eq_true_eq] at hv
    exact hv.1
  have hback : theWork (db₁.updateWork (fun v => v.id = w.id)
      (·.completed owner token m.entry.sequence usage.providerEventId at_) (PaidWorkRow.keeps fun _ => rfl)) w.id =
      .ok done := theWork_ok.2 (workById_move hw (by intros; rfl))
  simp only [settleLease, hstate, hheld, hlive, hattempt, hnone, hmine, hback, bind, Except.bind]
  simp [pure, Except.pure, done, PaidWorkRow.completed, PaidWorkRow.unleased]

/-- `completePaidWork` on a row that carries the claim the caller presents. -/
theorem completePaidWork_presented {db : Db} (h : LedgerInv db) {w : PaidWorkRow} (hw : w ∈ db.work.rows)
    (hstate : w.state = .processing) {owner token : String}
    (hheld : w.leaseOwner = some owner ∧ w.leaseToken = some token) {now : Nat → Int} (htime : ValidTime (now 0))
    {input : CompleteInput} (hwork : input.workId = w.id ∧ input.tenantId = w.tenantId)
    (hclaim : input.leaseOwner = owner ∧ input.leaseToken = token) (hevent : input.providerEventId = w.providerEventId)
    {usage : UsageInput Int} (husage : input.usage w.tenantId w = .ok usage) :
    completePaidWork B input now db =
      throwing (transaction db fun db => settleLease B db w owner token usage (now 0)) := by
  obtain ⟨drawn, hid⟩ := (h.work w hw).id
  obtain ⟨o, until_, k, ho, hk, -, hon⟩ := (h.work w hw).leased hstate
  obtain rfl := Option.some.inj (hheld.1.symm.trans ho)
  obtain rfl := Option.some.inj (hheld.2.symm.trans hk)
  have hidn : Normalized 512 w.id := hid ▸ drawn.normalized
  have hrow : db.workById w.id = some w := workById_of_mem hw
  simp only [completePaidWork, transaction, hwork, hclaim, hevent, hidn.required, (h.work w hw).tenantId.required,
    (h.work w hw).providerEventId.required, hon.required, k.normalized.required, htime.timestamp, husage, hrow,
    bind, Except.bind]
  simp [hstate]

/-- **The live claim settles its work**, whatever the tenant's controls and
however late, as long as the work was captured within its period and, when it
reserves nothing, the period still runs. Otherwise the work stays claimed. -/
theorem live_claim_settles (sha256 : String → String) (basisPoints : Int → Int → Int) {db : Db}
    (hreach : Reachable (hotPath sha256 basisPoints) db) {w : PaidWorkRow} (hw : w ∈ db.work.rows)
    (hstate : w.state = .processing) {owner token : String}
    (hheld : w.leaseOwner = some owner ∧ w.leaseToken = some token) {now : Nat → Int}
    (hlive : w.leaseLive (now 0) = true) (htime : ValidTime (now 0)) {input : CompleteInput}
    (hwork : input.workId = w.id ∧ input.tenantId = w.tenantId)
    (hclaim : input.leaseOwner = owner ∧ input.leaseToken = token) (hevent : input.providerEventId = w.providerEventId)
    (hoccurred : input.occurredAt = none) {usage : UsageInput Int} (husage : input.usage w.tenantId w = .ok usage)
    (hamount : input.amountUnits ≤ w.reservedUnits) (hfresh : Unanswered db usage) :
    let out := completePaidWork (hotPath sha256 basisPoints) input now db
    ∃ p, db.period w.tenantId w.periodId = some p ∧
      (Admissible p w.createdAt (now 0) w.reservedUnits →
        (∃ c, out.1 = .ok c) ∧ SettledWith db out.2 w input.amountUnits usage.providerEventId) ∧
      (¬Admissible p w.createdAt (now 0) w.reservedUnits →
        out.1 = .error (.error "usage requires an active allowance period") ∧ w ∈ out.2.work.rows) := by
  intro out
  have h : LedgerInv db := hreach.inv
  have hinv := h.work w hw
  obtain ⟨p, hp⟩ := hinv.holds (by simp [PaidWorkRow.holdsUnits, hstate])
  obtain ⟨hut, hup, hamt, hat, hpos⟩ := CompleteInput.usage_ok husage
  rw [hoccurred] at hat
  simp only [Option.getD_none] at hat
  obtain ⟨n, db₁, hs⟩ := sweep_isOk (B := hotPath sha256 basisPoints) (now 0) h
  have h₁ : LedgerInv db₁ := h.steps (sweep_steps hs : Steps (hotPath sha256 basisPoints) none db db₁)
  have hw₁ : w ∈ db₁.work.rows := sweep_mem hs hw (by simp [PaidWorkRow.isOpen, hstate])
  have hp₁ : db₁.period usage.tenantId usage.periodId = some p := by
    rw [hut, hup, Db.period, sweep_periods hs]
    exact hp
  have howned : 0 ≤ w.reservedUnits ∧ Js.isSafeInteger w.reservedUnits = true := by
    rw [hinv.reserved, if_pos (by simp [PaidWorkRow.holdsUnits, hstate])]
    exact hinv.estimated
  have hout : out = throwing (transaction db fun db =>
      settleLease (hotPath sha256 basisPoints) db w owner token usage (now 0)) :=
    completePaidWork_presented h hw hstate hheld htime hwork hclaim hevent husage
  refine ⟨p, hp, fun hadm => ?_, fun hadm => ?_⟩
  · rw [← hat] at hadm
    obtain ⟨row, db₂, hins, hbook⟩ := admitUsage_books (B := hotPath sha256 basisPoints) h₁.ordered (hfresh.sweep hs) hp₁ hadm howned (by omega)
    have hw₂ : w ∈ db₂.work.rows := insertEntry_work hins ▸ hw₁
    have hsettle := settleLease_booked hstate hheld hlive (hinv.unsettled (by simp [hstate])).2.2.1 hw₂
      ((attemptUsage_unanswered hs hfresh).trans hbook)
    simp only [hout, throwing, transaction, hsettle]
    have hnew : (newEntries db db₂).filter (·.kind = .usage) = [row] := filter_newEntries hs rfl hins
    refine ⟨⟨_, rfl⟩, row, hnew, ?_⟩
    rw [(insertEntry_ok.1 hins).1]
    refine ⟨hut, congrArg some hup, congrArg Neg.neg hamt, _, mem_move hw₂, rfl, rfl, rfl, rfl, rfl⟩
  · rw [← hat] at hadm
    have hsettle := settleLease_refused hstate hheld hlive
      ((attemptUsage_unanswered hs hfresh).trans (admitUsage_refuses hp₁ hadm))
    simp only [hout, throwing, transaction, hsettle]
    exact ⟨trivial, hw₁⟩

namespace Sample

/-- The ledger once a worker has claimed the work, which reserves `estimatedUnits`. -/
def leased (estimatedUnits : Int) : Db := runOps backend [grant, enqueue estimatedUnits 20, claim] Db.empty

/-- A clock that reads 2000, after the period's end. -/
def late : Nat → Int := fun _ => 2000

def leasedWork : PaidWorkRow := ((leased 5).workById workId.text).get (by decide +kernel)

/-- The worker reports the usage. -/
def completion (amountUnits : Int) : CompleteInput where
  workId := workId.text
  tenantId := "tenant"
  leaseOwner := "worker"
  leaseToken := token.text
  amountUnits := amountUnits
  providerEventId := "event"
  usageProviderEventId := none
  provider := "provider"
  model := none
  costBasis := .actual
  idempotencyKey := "usage"
  tariffVersion := "v1"
  auditReason := "transcribed"
  occurredAt := none

def usage (amountUnits : Int) : UsageInput Int where
  tenantId := "tenant"
  periodId := "period"
  amountUnits := amountUnits
  providerEventId := "event"
  operation := "transcribe"
  provider := "provider"
  model := none
  costBasis := .actual
  idempotencyKey := "usage"
  tariffVersion := "v1"
  auditReason := "transcribed"
  occurredAt := 20

end Sample

/-- Work that reserves five units is settled at 2000, its period over since 1000. -/
theorem live_claim_settles_late :
    SettledWith (Sample.leased 5)
      (completePaidWork Sample.backend (Sample.completion 4) Sample.late (Sample.leased 5)).2
      Sample.leasedWork 4 "event" := by
  obtain ⟨hw, hstate, hheld, hlive, hwork, hevent, husage, hamount, hunanswered, hperiod, hcreated⟩ :
      Sample.leasedWork ∈ (Sample.leased 5).work.rows ∧ Sample.leasedWork.state = .processing ∧
      (Sample.leasedWork.leaseOwner = some "worker" ∧ Sample.leasedWork.leaseToken = some Sample.token.text) ∧
      Sample.leasedWork.leaseLive (Sample.late 0) = true ∧
      ((Sample.completion 4).workId = Sample.leasedWork.id ∧
        (Sample.completion 4).tenantId = Sample.leasedWork.tenantId) ∧
      (Sample.completion 4).providerEventId = Sample.leasedWork.providerEventId ∧
      (Sample.completion 4).usage Sample.leasedWork.tenantId Sample.leasedWork = .ok (Sample.usage 4) ∧
      (Sample.completion 4).amountUnits ≤ Sample.leasedWork.reservedUnits ∧
      (∀ e ∈ (Sample.leased 5).entries.rows, ¬Answers e (Sample.usage 4)) ∧
      (Sample.leased 5).period Sample.leasedWork.tenantId Sample.leasedWork.periodId =
        some ⟨"tenant", "period", 0, 1000, 10⟩ ∧
      Admissible ⟨"tenant", "period", 0, 1000, 10⟩ Sample.leasedWork.createdAt (Sample.late 0)
        Sample.leasedWork.reservedUnits := by decide +kernel
  have hfresh : Unanswered (Sample.leased 5) (Sample.usage 4) := ⟨hunanswered, ne_expiryKey (by decide)⟩
  obtain ⟨p, hp, hok, -⟩ := live_claim_settles id (fun _ _ => 0) ⟨_, rfl⟩ hw hstate hheld hlive
    (by decide : ValidTime (Sample.late 0)) hwork ⟨rfl, rfl⟩ hevent rfl husage hamount hfresh
  obtain rfl := Option.some.inj (hp.symm.trans hperiod)
  exact (hok hcreated).2

/-- Work that reserves nothing is refused once its period is over, its lease still live and its usage fresh. -/
theorem unreserved_claim_refused :
    ((Sample.leased 0).workById Sample.workId.text).map
      (fun w => (w.state, w.leaseOwner, w.leaseToken, w.leaseUntil, w.reservedUnits)) =
      some (.processing, some "worker", some Sample.token.text, some 5030, 0) ∧
    (∀ e ∈ (Sample.leased 0).entries.rows, ¬Answers e (Sample.usage 0)) ∧
    (completePaidWork Sample.backend (Sample.completion 0) Sample.late (Sample.leased 0)).1 =
      .error (.error "usage requires an active allowance period") := by
  decide +kernel

/-! ## The durable receipt -/

theorem Write.periodsKept {u : Option Draw} {db db' : Db} (h : Write B u db db') : PeriodsKept db db' := by
  cases h with
  | period row periods _ _ _ hins => exact periodsKept_insert hins
  | book input row _ _ hins =>
    obtain ⟨-, entries, -, rfl⟩ := insertEntry_ok.1 hins
    exact fun _ _ _ h => h
  | capture row work db₁ now _ _ hdb =>
    subst hdb
    exact fun _ _ _ h => h
  | pause _ _ _ _ | move _ _ _ _ _ => exact fun _ _ _ h => h

theorem Settle.periodsKept {db db' : Db} {w : PaidWorkRow} {via : Via} (h : Settle B w db via db') :
    PeriodsKept db db' := by
  have charge : ∀ {owned : Int} {e : EntryRow} {db₁ : Db}, Charge B owned w db e db₁ → db₁.periods = db.periods := by
    intro owned e db₁ hc
    cases hc with
    | replay _ _ => rfl
    | book input _ _ _ _ _ _ _ hins =>
      obtain ⟨-, entries, -, rfl⟩ := insertEntry_ok.1 hins
      rfl
  intro t p x hx
  cases h with
  | lease _ _ _ _ e db₁ _ _ _ _ hc =>
    simp only [Db.period, Db.updateWork, charge hc] at hx ⊢
    exact hx
  | receipt _ _ _ e db₁ _ _ hc =>
    simp only [Db.period, Db.updateWork, charge hc] at hx ⊢
    exact hx

/-- The work is there and its period too. -/
def HasPeriod (subject : String × String × String) (db : Db) : Prop :=
  (∃ w ∈ db.work.rows, w.subject = subject) ∧ ∃ p, db.period subject.2.1 subject.2.2 = some p

theorem runOps_hasPeriod {subject : String × String × String} : ∀ (ops : List LedgerOp) {db : Db}, LedgerInv db →
    HasPeriod subject db → HasPeriod subject (runOps B ops db)
  | [], _, _, h => h
  | op :: ops, db, hinv, h => by
    have := op.preserves (B := B) (P := fun d => LedgerInv d ∧ HasPeriod subject d) (fun _ h => h.1.pointsBack)
      (fun d d' h hw => by
        obtain ⟨hd, ⟨w, hmem, hsub⟩, p, hp⟩ := h
        obtain ⟨w', hmem', hstep⟩ := hw.row_of hmem
        exact ⟨hd.write hw, ⟨w', hmem', hstep.subject.trans hsub⟩, p, hw.periodsKept _ _ _ hp⟩)
      (fun v d via d' h hs => by
        obtain ⟨hd, ⟨w, hmem, hsub⟩, p, hp⟩ := h
        obtain ⟨w', hmem', hsub'⟩ := hs.row_of hd hmem
        exact ⟨hd.settle hs, ⟨w', hmem', hsub'.trans hsub⟩, p, hs.periodsKept _ _ _ hp⟩) ⟨hinv, h⟩
    exact runOps_hasPeriod ops this.1 this.2

/-- The period of work that was claimed once is there. -/
theorem period_of_claimed {before after : List LedgerOp} {w₁ w : PaidWorkRow}
    (hw₁ : w₁ ∈ (runOps B before Db.empty).work.rows) (hclaimed : w₁.state = .processing)
    (hw : w ∈ (runOps B (before ++ after) Db.empty).work.rows) (hid : w.id = w₁.id) :
    ∃ p, (runOps B (before ++ after) Db.empty).period w.tenantId w.periodId = some p := by
  have h₁ : LedgerInv (runOps B before Db.empty) := Reachable.inv ⟨before, rfl⟩
  have hhas : HasPeriod w₁.subject (runOps B before Db.empty) :=
    ⟨⟨w₁, hw₁, rfl⟩, (h₁.work w₁ hw₁).holds (by simp [PaidWorkRow.holdsUnits, hclaimed])⟩
  have hafter := runOps_hasPeriod (B := B) after h₁ hhas
  rw [← runOps_append] at hafter
  obtain ⟨⟨v, hv, hsub⟩, p, hp⟩ := hafter
  simp only [PaidWorkRow.subject, Prod.mk.injEq] at hsub hp
  obtain rfl := work_ext hw hv (hid.trans hsub.1.symm)
  rw [hsub.2.1, hsub.2.2]
  exact ⟨p, hp⟩

theorem settleReceipt_refused {db db₁ : Db} {w : PaidWorkRow} {t receipt : String} {usage : UsageInput Int}
    {at_ : Int} {e : LedgerError}
    (hattempt : attemptUsageInTransaction B db usage (payloadHash B.sha256 usage.payload) at_
      (max w.reservedUnits usage.amountUnits) = .ok (.error e, db₁)) :
    settleReceipt B db w t receipt usage at_ = .ok (.error e, db₁) := by
  simp only [settleReceipt, hattempt, bind, Except.bind, pure, Except.pure]

theorem settleReceipt_booked {db db₁ : Db} {w v : PaidWorkRow} {receipt : String} {usage : UsageInput Int} {at_ : Int}
    {m : LedgerMutation} (hstate : w.state ≠ .done) (hv : v ∈ db₁.work.rows) (hsub : v.subject = w.subject)
    (hdone : v.state ≠ .done)
    (hattempt : attemptUsageInTransaction B db usage (payloadHash B.sha256 usage.payload) at_
      (max w.reservedUnits usage.amountUnits) = .ok (.ok m, db₁)) :
    settleReceipt B db w w.tenantId receipt usage at_ = .ok (.ok ⟨paidWork (v.receipted m.entry.sequence receipt at_), m⟩,
      db₁.updateWork (fun r => r.id = v.id) (·.receipted m.entry.sequence receipt at_)
        (PaidWorkRow.keeps fun _ => rfl)) := by
  simp only [PaidWorkRow.subject, Prod.mk.injEq] at hsub
  have hmine : db₁.updateWork (fun r => r.id = w.id ∧ r.tenantId = w.tenantId ∧ r.state ≠ .done)
      (·.receipted m.entry.sequence receipt at_) (PaidWorkRow.keeps fun _ => rfl) =
      db₁.updateWork (fun r => r.id = v.id) (·.receipted m.entry.sequence receipt at_)
        (PaidWorkRow.keeps fun _ => rfl) := by
    refine updateWork_mine hv (by simp [hsub, hdone]) fun r hr => ?_
    simp only [decide_eq_true_eq] at hr
    exact hr.1.trans hsub.1.symm
  have hback : theWork (db₁.updateWork (fun r => r.id = v.id) (·.receipted m.entry.sequence receipt at_)
      (PaidWorkRow.keeps fun _ => rfl)) w.id = .ok (v.receipted m.entry.sequence receipt at_) := by
    rw [← hsub.1]
    exact theWork_ok.2 (workById_move hv (by intros; rfl))
  simp only [settleReceipt, hattempt, hstate, if_false, hmine, hback, bind, Except.bind]
  simp [pure, Except.pure, PaidWorkRow.receipted, PaidWorkRow.completed, PaidWorkRow.unleased]

/-- `completePaidWorkFromDurableReceipt` on a row that matches the caller's identities and has no receipt. -/
theorem receipt_presented {db : Db} (h : LedgerInv db) {w : PaidWorkRow} (hw : w ∈ db.work.rows)
    (hnone : w.providerReceiptId = none) {now : Nat → Int} (htime : ValidTime (now 0)) {input : ReceiptInput}
    (hwork : input.workId = w.id ∧ input.tenantId = w.tenantId)
    (hevent : input.admissionProviderEventId = w.providerEventId) (hreceipt : Normalized 512 input.providerReceiptId)
    {usage : UsageInput Int} (husage : input.usage w.tenantId input.providerReceiptId w = .ok usage) :
    completePaidWorkFromDurableReceipt B input now db =
      throwing (transaction db fun db =>
        settleReceipt B db w w.tenantId input.providerReceiptId usage (now 0)) := by
  obtain ⟨drawn, hid⟩ := (h.work w hw).id
  have hidn : Normalized 512 w.id := hid ▸ drawn.normalized
  have hrow : db.workById w.id = some w := workById_of_mem hw
  simp only [completePaidWorkFromDurableReceipt, transaction, hwork, hevent, hidn.required,
    (h.work w hw).tenantId.required, (h.work w hw).providerEventId.required, hreceipt.required, htime.timestamp,
    husage, hrow, hnone, bind, Except.bind]
  simp

theorem RowInv.reserved_safe {db : Db} {w : PaidWorkRow} (h : RowInv db w) :
    0 ≤ w.reservedUnits ∧ Js.isSafeInteger w.reservedUnits = true := by
  rw [h.reserved]
  split
  · exact h.estimated
  · exact ⟨le_refl _, by decide⟩

/-- The usage of a durable receipt, on a work that has none yet: booked when it
is admissible with its synthetic reservation, refused otherwise. -/
theorem receipt_outcome {db : Db} (h : LedgerInv db) {w : PaidWorkRow} (hw : w ∈ db.work.rows)
    (hnone : w.providerReceiptId = none) {p : PeriodRow} (hp : db.period w.tenantId w.periodId = some p)
    {now : Nat → Int} (htime : ValidTime (now 0)) {input : ReceiptInput}
    (hwork : input.workId = w.id ∧ input.tenantId = w.tenantId)
    (hevent : input.admissionProviderEventId = w.providerEventId) (hreceipt : Normalized 512 input.providerReceiptId)
    {usage : UsageInput Int} (husage : input.usage w.tenantId input.providerReceiptId w = .ok usage)
    (hfresh : ∀ e ∈ db.entries.rows, ¬Answers e usage) :
    let out := completePaidWorkFromDurableReceipt B input now db
    let owned := max w.reservedUnits input.amountUnits
    (Admissible p w.createdAt (now 0) owned →
      (∃ c, out.1 = .ok c) ∧ SettledWith db out.2 w input.amountUnits input.providerReceiptId) ∧
    (¬Admissible p w.createdAt (now 0) owned →
      out.1 = .error (.error "usage requires an active allowance period")) := by
  intro out owned
  have hinv := h.work w hw
  obtain ⟨hut, hup, hamt, hat, hkey, hpos, hsafe⟩ := ReceiptInput.usage_ok husage
  have hdone : w.state ≠ .done := by
    intro hd
    have := hinv.receipt hd
    simp [hnone] at this
  obtain ⟨n, db₁, hs⟩ := sweep_isOk (B := B) (now 0) h
  have h₁ : LedgerInv db₁ := h.steps (sweep_steps hs : Steps B none db db₁)
  have hp₁ : db₁.period usage.tenantId usage.periodId = some p := by
    rw [hut, hup, Db.period, sweep_periods hs]
    exact hp
  have hunanswered : Unanswered db usage := by
    refine ⟨hfresh, ne_expiryKey ?_⟩
    rw [hkey]
    simp only [String.toList_append, List.append_assoc]
    simp
  have howned : 0 ≤ owned ∧ Js.isSafeInteger owned = true := by
    obtain ⟨h0, hsafe₀⟩ := hinv.reserved_safe
    simp only [owned, ← hamt]
    rcases max_choice w.reservedUnits usage.amountUnits with hmax | hmax <;> rw [hmax]
    · exact ⟨h0, hsafe₀⟩
    · exact ⟨hpos, hsafe⟩
  have hattempt : ∀ hash, attemptUsageInTransaction B db usage hash (now 0) (max w.reservedUnits usage.amountUnits) =
      admitUsage B db₁ usage hash (now 0) owned := by
    intro hash
    rw [attemptUsage_unanswered hs hunanswered, hamt]
  have hout : out = throwing (transaction db fun db =>
      settleReceipt B db w w.tenantId input.providerReceiptId usage (now 0)) :=
    receipt_presented h hw hnone htime hwork hevent hreceipt husage
  refine ⟨fun hadm => ?_, fun hadm => ?_⟩
  · rw [← hat] at hadm
    have hle : usage.amountUnits ≤ owned := by
      rw [hamt]
      exact le_max_right _ _
    obtain ⟨row, db₂, hins, hbook⟩ := admitUsage_books (B := B) h₁.ordered (hunanswered.sweep hs) hp₁ hadm howned hle
    -- The sweep may have paused the row it settles.
    obtain ⟨v, hv, hvw⟩ := sweep_row hs hw
    have hsub : v.subject = w.subject ∧ v.state ≠ .done := by
      rcases hvw with rfl | ⟨-, rfl⟩
      · exact ⟨rfl, hdone⟩
      · exact ⟨rfl, by simp [PaidWorkRow.unleased]⟩
    have hv₂ : v ∈ db₂.work.rows := insertEntry_work hins ▸ hv
    have hsettle : settleReceipt B db w w.tenantId input.providerReceiptId usage (now 0) = _ :=
      settleReceipt_booked hdone hv₂ hsub.1 hsub.2 ((hattempt _).trans hbook)
    have hnew : (newEntries db db₂).filter (·.kind = .usage) = [row] := filter_newEntries hs rfl hins
    simp only [hout, throwing, transaction, hsettle]
    refine ⟨⟨_, rfl⟩, row, hnew, ?_⟩
    rw [(insertEntry_ok.1 hins).1]
    refine ⟨hut, congrArg some hup, congrArg Neg.neg hamt, _, mem_move hv₂, congrArg Prod.fst hsub.1, rfl, rfl, rfl, rfl⟩
  · rw [← hat] at hadm
    have hsettle : settleReceipt B db w w.tenantId input.providerReceiptId usage (now 0) = _ :=
      settleReceipt_refused ((hattempt _).trans (admitUsage_refuses hp₁ hadm))
    simp only [hout, throwing, transaction, hsettle]

/-- **When a durable receipt settles.** Work that was claimed once and has no
receipt is settled by one exactly if it was captured within its period and
reserves something, is charged something, or the period still runs. -/
theorem receipt_settles_iff (sha256 : String → String) (basisPoints : Int → Int → Int) (before after : List LedgerOp)
    {w₁ w : PaidWorkRow} (hw₁ : w₁ ∈ (runOps (hotPath sha256 basisPoints) before Db.empty).work.rows)
    (hclaimed : w₁.state = .processing)
    (hw : w ∈ (runOps (hotPath sha256 basisPoints) (before ++ after) Db.empty).work.rows) (hid : w.id = w₁.id)
    (hnone : w.providerReceiptId = none) {now : Nat → Int} (htime : ValidTime (now 0)) {input : ReceiptInput}
    (hwork : input.workId = w.id ∧ input.tenantId = w.tenantId)
    (hevent : input.admissionProviderEventId = w.providerEventId) (hreceipt : Normalized 512 input.providerReceiptId)
    {usage : UsageInput Int} (husage : input.usage w.tenantId input.providerReceiptId w = .ok usage)
    (hfresh : ∀ e ∈ (runOps (hotPath sha256 basisPoints) (before ++ after) Db.empty).entries.rows, ¬Answers e usage) :
    let db := runOps (hotPath sha256 basisPoints) (before ++ after) Db.empty
    let out := completePaidWorkFromDurableReceipt (hotPath sha256 basisPoints) input now db
    ∃ p, db.period w.tenantId w.periodId = some p ∧
      ((∃ c, out.1 = .ok c) ∧ SettledWith db out.2 w input.amountUnits input.providerReceiptId ↔
        p.startsAt ≤ w.createdAt ∧ w.createdAt < p.endsAt ∧
          (0 < w.reservedUnits ∨ 0 < input.amountUnits ∨ p.startsAt ≤ now 0 ∧ now 0 < p.endsAt)) := by
  intro db out
  have h : LedgerInv db := Reachable.inv ⟨before ++ after, rfl⟩
  obtain ⟨p, hp⟩ := period_of_claimed hw₁ hclaimed hw hid
  obtain ⟨hok, herror⟩ := receipt_outcome h hw hnone hp htime hwork hevent hreceipt husage hfresh
  have hreserved := (h.work w hw).reserved_safe.1
  have hamount : 0 ≤ input.amountUnits := by
    obtain ⟨-, -, hamt, -, -, hpos, -⟩ := ReceiptInput.usage_ok husage
    exact hamt ▸ hpos
  have hiff : Admissible p w.createdAt (now 0) (max w.reservedUnits input.amountUnits) ↔
      p.startsAt ≤ w.createdAt ∧ w.createdAt < p.endsAt ∧
        (0 < w.reservedUnits ∨ 0 < input.amountUnits ∨ p.startsAt ≤ now 0 ∧ now 0 < p.endsAt) := by
    unfold Admissible
    omega
  refine ⟨p, hp, ⟨fun hsettled => ?_, fun hcond => hok (hiff.2 hcond)⟩⟩
  by_contra hnot
  obtain ⟨⟨c, hc⟩, -⟩ := hsettled
  rw [herror fun hadm => hnot (hiff.1 hadm)] at hc
  cases hc

namespace Sample

/-- A provider's receipt for the work. -/
def receipt (amountUnits : Int) : ReceiptInput where
  workId := workId.text
  tenantId := "tenant"
  admissionProviderEventId := "event"
  providerReceiptId := "receipt"
  amountUnits := amountUnits
  provider := "provider"
  model := none
  costBasis := .actual
  tariffVersion := "v1"
  auditReason := "transcribed"

def receiptUsage (amountUnits : Int) : UsageInput Int :=
  { usage amountUnits with providerEventId := "receipt", idempotencyKey := "usage:receipt:transcribe" }

/-- The ledger once the claimed work was cancelled by its claim. -/
def cancelled : Db := runOps backend ([grant, enqueue 5 20, claim] ++ [cancel]) Db.empty

def cancelledWork : PaidWorkRow := (cancelled.workById workId.text).get (by decide +kernel)

end Sample

/-- Cancelled work is settled at 2000 by a receipt for three units, the lease and the period long over. -/
theorem receipt_settles_cancelled :
    SettledWith Sample.cancelled
      (completePaidWorkFromDurableReceipt Sample.backend (Sample.receipt 3) Sample.late Sample.cancelled).2
      Sample.cancelledWork 3 "receipt" := by
  obtain ⟨hw₁, hclaimed, hw, hid, hnone, hwork, hevent, husage, hfresh, hperiod, hcreated⟩ :
      Sample.leasedWork ∈ (Sample.leased 5).work.rows ∧ Sample.leasedWork.state = .processing ∧
      Sample.cancelledWork ∈ Sample.cancelled.work.rows ∧ Sample.cancelledWork.id = Sample.leasedWork.id ∧
      Sample.cancelledWork.providerReceiptId = none ∧
      ((Sample.receipt 3).workId = Sample.cancelledWork.id ∧
        (Sample.receipt 3).tenantId = Sample.cancelledWork.tenantId) ∧
      (Sample.receipt 3).admissionProviderEventId = Sample.cancelledWork.providerEventId ∧
      (Sample.receipt 3).usage Sample.cancelledWork.tenantId (Sample.receipt 3).providerReceiptId Sample.cancelledWork =
        .ok (Sample.receiptUsage 3) ∧
      (∀ e ∈ Sample.cancelled.entries.rows, ¬Answers e (Sample.receiptUsage 3)) ∧
      Sample.cancelled.period Sample.cancelledWork.tenantId Sample.cancelledWork.periodId =
        some ⟨"tenant", "period", 0, 1000, 10⟩ ∧
      Sample.cancelledWork.createdAt = 20 := by decide +kernel
  obtain ⟨p, hp, hiff⟩ := receipt_settles_iff id (fun _ _ => 0) [Sample.grant, Sample.enqueue 5 20, Sample.claim]
    [Sample.cancel] hw₁ hclaimed hw hid hnone (by decide : ValidTime (Sample.late 0)) hwork hevent
    ⟨by decide, by decide, by decide⟩ husage hfresh
  obtain rfl := Option.some.inj (hp.symm.trans hperiod)
  exact (hiff.2 ⟨by simp [hcreated], by simp [hcreated], .inr (.inl (by decide))⟩).2

/-- The same receipt for no units is refused: nothing is reserved any more and the period is over. -/
theorem free_receipt_refused :
    ((Sample.leased 5).workById Sample.workId.text).map (·.state) = some .processing ∧
    (Sample.cancelled.workById Sample.workId.text).map (fun w => (w.state, w.providerReceiptId, w.reservedUnits)) =
      some (.cancelled, none, 0) ∧
    (∀ e ∈ Sample.cancelled.entries.rows, ¬Answers e (Sample.receiptUsage 0)) ∧
    (completePaidWorkFromDurableReceipt Sample.backend (Sample.receipt 0) Sample.late Sample.cancelled).1 =
      .error (.error "usage requires an active allowance period") := by
  decide +kernel

end Zenod.Phylax
