/-
The gates of paid work: a suspended tenant has nothing captured or ready, and
a claim is granted only for work that was evaluated ready within its period
and whose period runs on. A control's key counts once: replaying it changes
nothing.
-/
import Zenod.Phylax.Expiry

namespace Zenod.Phylax

variable {B : Backend} {u : Option Draw}

/-! ## Ready work was evaluated -/

/-- The row is what `evaluateWork` wrote when it found it ready at `evaluatedAt`, `p` being its period. -/
def EvaluatedReady (B : Backend) (w : PaidWorkRow) (evaluatedAt : Int) (p : PeriodRow) : Prop :=
  ∃ db v, (evaluation B db v evaluatedAt).1 = .ready ∧ w = v.evaluated (evaluation B db v evaluatedAt) evaluatedAt ∧
    db.period w.tenantId w.periodId = some p

/-- Every ready row was evaluated ready, for the period it has. -/
def ReadyEvaluated (B : Backend) (db : Db) : Prop :=
  ∀ w ∈ db.work.rows, w.state = .ready →
    ∃ p, db.period w.tenantId w.periodId = some p ∧ EvaluatedReady B w w.updatedAt p

theorem EvaluatedReady.bounds {w : PaidWorkRow} {evaluatedAt : Int} {p : PeriodRow}
    (h : EvaluatedReady B w evaluatedAt p) : p.startsAt ≤ evaluatedAt ∧ evaluatedAt < p.endsAt := by
  obtain ⟨db, v, hready, rfl, hp⟩ := h
  obtain ⟨-, q, hq, hstart, hend, -⟩ := evaluation_ready hready
  obtain rfl : q = p := Option.some.inj (hq.symm.trans hp)
  exact ⟨hstart, hend⟩

theorem evaluatedReady_of_evaluated {db : Db} {v : PaidWorkRow} {now : Int}
    (hs : (v.evaluated (evaluation B db v now) now).state = .ready) :
    ∃ p, db.period v.tenantId v.periodId = some p ∧
      EvaluatedReady B (v.evaluated (evaluation B db v now) now) now p := by
  obtain ⟨-, p, hp, -⟩ := evaluation_ready hs
  exact ⟨p, hp, db, v, hs, rfl, hp⟩

theorem Write.readyEvaluated {db db' : Db} (h : Write B u db db') (hr : ReadyEvaluated B db) :
    ReadyEvaluated B db' := by
  intro w' hw' hs
  rcases h.row hw' with ⟨w, hw, hstep⟩ | ⟨row, db₁, now, hc, hperiods, rfl⟩
  · cases hstep with
    | keep =>
      obtain ⟨p, hp, hev⟩ := hr w' hw hs
      exact ⟨p, h.periodsKept _ _ _ hp, hev⟩
    | pause reason now _ => cases hs
    | move _ hmove =>
      cases hmove with
      | evaluate now _ =>
        obtain ⟨p, hp, hev⟩ := evaluatedReady_of_evaluated hs
        exact ⟨p, h.periodsKept _ _ _ hp, hev⟩
      | free now db₁ _ hdb =>
        obtain ⟨p, hp, hev⟩ := evaluatedReady_of_evaluated hs
        rw [hdb] at hp
        exact ⟨p, h.periodsKept _ _ _ hp, hev⟩
      | claim owner token leaseUntil now _ _ _ => cases hs
      | renew leaseUntil now hp => simp [hp] at hs
      | requestCancel requestedAt now hp => simp [hp] at hs
      | cancel requestedAt now _ => cases hs
  · obtain ⟨p, hp, hev⟩ := evaluatedReady_of_evaluated hs
    rw [Db.period, hperiods] at hp
    exact ⟨p, h.periodsKept _ _ _ hp, hev⟩

theorem Settle.readyEvaluated {db db' : Db} {w : PaidWorkRow} {via : Via} (hinv : LedgerInv db)
    (h : Settle B w db via db') (hr : ReadyEvaluated B db) : ReadyEvaluated B db' := by
  intro v hv hs
  rcases h.row hinv hv with ⟨hold, -⟩ | ⟨-, hd, -⟩
  · obtain ⟨p, hp, hev⟩ := hr v hold hs
    exact ⟨p, h.periodsKept _ _ _ hp, hev⟩
  · rw [hd] at hs
    cases hs

theorem Steps.readyEvaluated {db db' : Db} (h : Steps B u db db') (hr : ReadyEvaluated B db) :
    ReadyEvaluated B db' := by
  induction h with
  | refl => exact hr
  | tail _ hw ih => exact hw.readyEvaluated ih

theorem Reachable.readyEvaluated {db : Db} (h : Reachable B db) : LedgerInv db ∧ ReadyEvaluated B db := by
  refine h.invariant (P := fun d => LedgerInv d ∧ ReadyEvaluated B d) ⟨.empty, by simp [ReadyEvaluated, Db.empty]⟩
    fun op d hd => op.preserves (P := fun d => LedgerInv d ∧ ReadyEvaluated B d) (fun _ h => h.1.pointsBack)
      (fun _ _ h hw => ⟨h.1.write hw, hw.readyEvaluated h.2⟩)
      (fun _ _ _ _ h hs => ⟨h.1.settle hs, hs.readyEvaluated h.1 h.2⟩) hd

/-! ## The sweeps leave the controls alone -/

theorem evaluateWork_entries {id : String} {now : Int} {db db' : Db} {row : PaidWorkRow}
    (h : evaluateWork B id now db = .ok (row, db')) : db'.entries = db.entries := by
  obtain ⟨w, -, h⟩ := evaluateWork_ok.1 h
  split at h
  · rw [h.2]
    rfl
  · rw [h.2]

theorem reclaimLease_entries {now : Int} {changed n : Nat} {db db' : Db} {row : PaidWorkRow}
    (h : reclaimLease B now changed db row = .ok (n, db')) : db'.entries = db.entries := by
  simp only [reclaimLease] at h
  split at h
  · obtain ⟨-, rfl⟩ := Prod.mk.inj (Except.ok.inj h)
    rfl
  split at h
  · simp only [bind_ok, pure_ok, Prod.mk.injEq] at h
    obtain ⟨⟨r, db₁⟩, h₁, -, rfl⟩ := h
    exact (evaluateWork_entries h₁).trans rfl
  · obtain ⟨-, rfl⟩ := Prod.mk.inj (Except.ok.inj h)
    rfl

theorem reclaim_entries {now : Int} : ∀ {rows : List PaidWorkRow} {changed n : Nat} {db db' : Db},
    reclaimLeases B now rows changed db = .ok (n, db') → db'.entries = db.entries
  | [], _, _, _, _, h => by
    obtain ⟨-, rfl⟩ := Prod.mk.inj (Except.ok.inj h)
    rfl
  | row :: rows, changed, n, db, db', h => by
    simp only [reclaimLeases, bind_ok] at h
    obtain ⟨⟨m, db₁⟩, h₁, h₂⟩ := h
    exact (reclaim_entries h₂).trans (reclaimLease_entries h₁)

theorem isSuspended_sweep {now : Int} {n : Nat} {db db' : Db}
    (h : reconcileExpiredPeriodsInTransaction B now db = .ok (n, db')) : db'.isSuspended = db.isSuspended := by
  refine sweep_preserves (fun d => d.isSuspended = db.isSuspended) (fun p _ _ d d' h₁ hd => ?_) h rfl
  rcases expirePeriod_cases h₁ with rfl | ⟨row, -, hins⟩
  · exact hd
  · funext t
    rw [← hd]
    have hlatest := latestControl_insertEntry hins t
    rw [(insertEntry_ok.1 hins).1] at hlatest
    simp only [EntryInput.row, expiryEntry, reduceCtorEq, or_self, and_false, if_false] at hlatest
    simp only [Db.isSuspended, hlatest]
    rfl

/-! ## Granted claims -/

/-- How a claim is granted: the sweeps ran, the last of them at `at_`, and left
the work ready. -/
def Granted (B : Backend) (db : Db) (at_ : Int) (db' : Db) (work : PaidWork) : Prop :=
  ∃ n db₁ db₂ w owner token leaseUntil, Steps B none db db₁ ∧ db₁.entries = db.entries ∧
    reconcileExpiredPeriodsInTransaction B at_ db₁ = .ok (n, db₂) ∧ w ∈ db₂.work.rows ∧ w.state = .ready ∧
    db'.periods = db₂.periods ∧ work = paidWork (w.leased owner token leaseUntil at_)

theorem claimNextPaidWork_granted {tenantId workerId token : String} {leaseMs at_ : Int} {db db' : Db}
    {work : PaidWork} (h : claimNextPaidWork B tenantId workerId leaseMs at_ token db = (.ok (some work), db')) :
    Granted B db at_ db' work := by
  obtain ⟨e, -, he⟩ | ⟨v, db'', h, hv⟩ := transaction_cases h
  · cases he
  obtain ⟨hval, rfl⟩ := Prod.mk.inj hv
  obtain rfl := Except.ok.inj hval
  simp only [bind_ok, timestamp_ok] at h
  obtain ⟨t, -, o, -, now, ⟨rfl, -⟩, lease, -, ⟨k₁, db₁⟩, h₁, ⟨k₂, db₂⟩, h₂, h⟩ := h
  split at h
  · simp only [pure_ok, Prod.mk.injEq, reduceCtorEq, false_and] at h
  next w hw =>
  obtain ⟨hmem, hw⟩ := selectWork_head hw
  simp only [decide_eq_true_eq] at hw
  split at h
  · simp only [bind_ok, pure_ok, Prod.mk.injEq, Option.some.injEq, theWork_ok] at h
    obtain ⟨r, hr, rfl, rfl⟩ := h
    have hself : decide (w.id = w.id ∧ w.state = .ready) = true := by simp [hw.2]
    rw [updateWork_mine hmem hself fun v hv => by simp only [decide_eq_true_eq] at hv; exact hv.1,
      workById_move hmem (by intros; rfl)] at hr
    obtain rfl := Option.some.inj hr
    exact ⟨k₂, db₁, db₂, w, o, token, _, reclaim_steps h₁, reclaim_entries h₁, h₂, hmem, hw.2, rfl, rfl⟩
  · simp only [pure_ok, Prod.mk.injEq, reduceCtorEq, false_and] at h

theorem claimPaidWork_granted {workId tenantId workerId token : String} {leaseMs at_ : Int} {db db' : Db}
    {work : PaidWork} (h : claimPaidWork B workId tenantId workerId leaseMs at_ token db = (.ok (some work), db')) :
    Granted B db at_ db' work := by
  obtain ⟨e, -, he⟩ | ⟨v, db'', h, hv⟩ := transaction_cases h
  · cases he
  obtain ⟨hval, rfl⟩ := Prod.mk.inj hv
  obtain rfl := Except.ok.inj hval
  simp only [bind_ok, timestamp_ok] at h
  obtain ⟨wid, -, t, -, o, -, now, ⟨rfl, -⟩, lease, -, h⟩ := h
  split at h
  · simp only [pure_ok, Prod.mk.injEq, reduceCtorEq, false_and] at h
  split at h
  · simp only [pure_ok, Prod.mk.injEq, reduceCtorEq, false_and] at h
  simp only [bind_ok] at h
  obtain ⟨⟨k₁, db₁⟩, h₁, ⟨k₂, db₂⟩, h₂, h⟩ := h
  have hreclaim : Steps B none db db₁ ∧ db₁.entries = db.entries := by
    split at h₁
    · exact ⟨reclaim_steps h₁, reclaim_entries h₁⟩
    · obtain ⟨-, rfl⟩ := Prod.mk.inj (Except.ok.inj h₁)
      exact ⟨.refl, rfl⟩
  split at h
  · simp only [pure_ok, Prod.mk.injEq, reduceCtorEq, false_and] at h
  next w hw =>
  split at h
  · simp only [pure_ok, Prod.mk.injEq, reduceCtorEq, false_and] at h
  next hready =>
  simp only [not_or, ne_eq, not_not] at hready
  obtain ⟨hmem, rfl⟩ := workById_mem hw
  split at h
  · simp only [bind_ok, pure_ok, Prod.mk.injEq, Option.some.injEq, theWork_ok] at h
    obtain ⟨r, hr, rfl, rfl⟩ := h
    have hself : decide (w.id = w.id ∧ w.tenantId = t ∧ w.state = .ready) = true := by simp [hready]
    rw [updateWork_mine hmem hself fun v hv => by simp only [decide_eq_true_eq] at hv; exact hv.1,
      workById_move hmem (by intros; rfl)] at hr
    obtain rfl := Option.some.inj hr
    exact ⟨k₂, db₁, db₂, w, o, token, _, hreclaim.1, hreclaim.2, h₂, hmem, hready.2, rfl, rfl⟩
  · simp only [pure_ok, Prod.mk.injEq, reduceCtorEq, false_and] at h

/-- What holds of a work when a claim on it is granted at `at_`. -/
structure ClaimGate (B : Backend) (db : Db) (at_ : Int) (db' : Db) (work : PaidWork) : Prop where
  /-- The tenant was not suspended. -/
  active : db.isSuspended work.tenantId = false
  /-- The period runs on, and the work was evaluated ready within it. -/
  period : ∃ p, db'.period work.tenantId work.periodId = some p ∧ at_ < p.endsAt ∧
    ∃ w evaluatedAt, w.id = work.id ∧ EvaluatedReady B w evaluatedAt p ∧ p.startsAt ≤ evaluatedAt
  /-- The whole estimate is reserved. -/
  reserved : work.reservedUnits = work.estimatedUnits

theorem Granted.gate {sha256 : String → String} {basisPoints : Int → Int → Int} {db db' : Db} {at_ : Int}
    {work : PaidWork} (h : LedgerInv db) (hr : ReadyEvaluated (hotPath sha256 basisPoints) db)
    (hg : Granted (hotPath sha256 basisPoints) db at_ db' work) : ClaimGate (hotPath sha256 basisPoints) db at_ db' work := by
  obtain ⟨n, db₁, db₂, w, owner, token, leaseUntil, hsteps, hentries, hs, hw, hready, hperiods, rfl⟩ := hg
  have h₁ := h.steps hsteps
  have hsweep : Steps (hotPath sha256 basisPoints) none db₁ db₂ := sweep_steps hs
  have h₂ := h₁.steps hsweep
  obtain ⟨p, hp, hev⟩ := (hsweep.readyEvaluated (hsteps.readyEvaluated hr)) w hw hready
  have hopen : w.isOpen = true := by simp [PaidWorkRow.isOpen, hready]
  refine ⟨?_, ⟨p, ?_, ?_, w, w.updatedAt, rfl, hev, hev.bounds.1⟩, ?_⟩
  · have hsame : db₂.isSuspended = db.isSuspended := (isSuspended_sweep hs).trans (latestControl_congr hentries)
    by_contra hsus
    have := h₂.suspended w hw (by rw [hsame]; simpa [paidWork, PaidWorkRow.leased] using hsus)
    rw [hopen] at this
    cases this
  · rw [Db.period, hperiods]
    exact hp
  · -- An ended period has no ready work after the sweep.
    by_contra hend
    have hmem : p ∈ db₁.periods.rows := by
      rw [← sweep_periods hs]
      exact List.mem_of_find?_eq_some hp
    obtain ⟨⟨hclosed, -⟩, -⟩ := sweep_period h₁ hs hmem (not_lt.1 hend)
    have hkey := List.find?_some hp
    simp only [decide_eq_true_eq] at hkey
    have := hclosed w hw (by simp [PaidWorkRow.isIn, hkey])
    rw [hopen] at this
    cases this
  · have := (h₂.work w hw).reserved
    simpa [PaidWorkRow.holdsUnits, hready, paidWork, PaidWorkRow.leased] using this

/-- When a claim operation claims. -/
def LedgerOp.claimAt : LedgerOp → Option Int
  | .claimNextPaidWork _ _ _ at_ _ => some at_
  | .claimPaidWork _ _ _ _ at_ _ => some at_
  | _ => none

theorem claimed_of_map {out : Except LedgerError (Option PaidWork) × Db} {work : PaidWork}
    (h : out.1.map LedgerResult.claim = .ok (.claim (some work))) : out = (.ok (some work), out.2) := by
  obtain ⟨r, d⟩ := out
  cases r with
  | error e => cases h
  | ok v =>
    simp only [Except.map, Except.ok.injEq, LedgerResult.claim.injEq] at h
    rw [h]

theorem LedgerOp.granted {db : Db} {op : LedgerOp} {at_ : Int} {work : PaidWork} (hat : op.claimAt = some at_)
    (hrun : (op.run B db).1 = .ok (.claim (some work))) : Granted B db at_ (op.after B db) work := by
  cases op with
  | claimNextPaidWork tenantId workerId leaseMs at' token =>
    obtain rfl := Option.some.inj hat
    simp only [LedgerOp.run, LedgerOp.after, Prod.map_fst, Prod.map_snd, id_eq] at hrun ⊢
    exact claimNextPaidWork_granted (claimed_of_map hrun)
  | claimPaidWork workId tenantId workerId leaseMs at' token =>
    obtain rfl := Option.some.inj hat
    simp only [LedgerOp.run, LedgerOp.after, Prod.map_fst, Prod.map_snd, id_eq] at hrun ⊢
    exact claimPaidWork_granted (claimed_of_map hrun)
  | _ => cases hat

/-! ## Replayed controls -/

/-- A control under a key the tenant has used already leaves the database as it is. -/
theorem control_replayed {db : Db} {input : ControlInput (Option Int)} {kind : EntryKind} {now : Nat → Int}
    (hused : (db.entryByIdempotency (Js.trim input.tenantId) (Js.trim input.idempotencyKey)).isSome = true) :
    (control B input kind now db).2 = db := by
  refine transaction_eq_self fun v db' h => ?_
  simp only [bind_ok, ControlInput.normalize, required_ok, pure_ok] at h
  obtain ⟨n, ⟨t, ⟨rfl, -⟩, s, -, k, ⟨rfl, -⟩, r, -, o, -, rfl⟩, h⟩ := h
  obtain ⟨e, he⟩ := Option.isSome_iff_exists.1 hused
  simp only [he, bind_ok, pure_ok, Prod.mk.injEq] at h
  obtain ⟨m, -, -, rfl⟩ := h
  rfl

end Zenod.Phylax
