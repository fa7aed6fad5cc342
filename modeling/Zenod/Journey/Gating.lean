/-
Which steps `claimDueSteps` hands out. A step counts as dependency-satisfied
when its ids are distinct and name completed steps of its journey
(`dependenciesSatisfied_iff`), so what is handed out never waits for another
step (`claimDueSteps_completed`).

`gated_iff`: an id that is repeated keeps a step back for ever, and five due
steps that wait for others keep back every step behind them.
-/
import Zenod.Journey.Store

namespace Zenod.Journey

open Keyed

variable {order : DueOrder} {s : Store} {now leaseMs : Int} {limit : Nat}

/-! ## Dependencies -/

/-- The id names a completed step of the journey. -/
def Store.Completed (s : Store) (journeyId id : String) : Prop :=
  ∃ t ∈ s.steps.rows, t.id = id ∧ t.journeyId = journeyId ∧ t.status = .completed

/-- Every dependency of the step is a completed step of its journey. -/
def Store.DepsCompleted (s : Store) (step : StepRow) : Prop := ∀ id ∈ step.dependencyIds, s.Completed step.journeyId id

theorem identifies_id (id : String) : Table.Identifies fun r : StepRow => r.id = id := by
  intro a b ha hb
  rw [decide_eq_true_eq] at ha hb
  show (a.id == b.id || a.sameKey b) = true
  rw [ha, hb, beq_self_eq_true, Bool.true_or]

theorem steps_nodup (t : Table StepRow) : (t.rows.map (·.id)).Nodup := by
  refine List.pairwise_map.2 (t.unique.imp fun {a b} h heq => ?_)
  have h : (a.id == b.id || a.sameKey b) = false := h
  rw [heq, beq_self_eq_true, Bool.true_or] at h
  cases h

/-- The completed steps of a journey that a list names. -/
def Store.named (s : Store) (journeyId : String) (ids : List String) : List String :=
  (s.steps.rows.filter fun r => r.journeyId = journeyId && ids.contains r.id && r.status = .completed).map (·.id)

theorem mem_named {journeyId id : String} {ids : List String} :
    id ∈ s.named journeyId ids ↔ id ∈ ids ∧ s.Completed journeyId id := by
  simp only [Store.named, List.mem_map, List.mem_filter, Bool.and_eq_true, decide_eq_true_eq, List.contains_iff_mem]
  constructor
  · rintro ⟨r, ⟨hr, ⟨hj, hid⟩, hstatus⟩, rfl⟩
    exact ⟨hid, r, hr, rfl, hj, hstatus⟩
  · rintro ⟨hid, r, hr, rfl, hj, hstatus⟩
    exact ⟨r, ⟨hr, ⟨hj, hid⟩, hstatus⟩, rfl⟩

theorem named_nodup (s : Store) (journeyId : String) (ids : List String) : (s.named journeyId ids).Nodup :=
  (List.filter_sublist.map _).nodup (steps_nodup s.steps)

/-- **What the count compares**: the ids are distinct and each names a completed step of the journey. -/
theorem dependenciesSatisfied_iff {journeyId : String} {ids : List String} :
    s.dependenciesSatisfied journeyId ids = true ↔ ids.Nodup ∧ ∀ id ∈ ids, s.Completed journeyId id := by
  have hcount : s.dependenciesSatisfied journeyId ids = true ↔ (s.named journeyId ids).length = ids.length := by
    unfold Store.dependenciesSatisfied Store.named
    split
    next h =>
      obtain rfl := List.eq_nil_of_length_eq_zero h
      simp
    next => rw [beq_iff_eq, List.length_map, Table.count, List.countP_eq_length_filter]
  have hsub : s.named journeyId ids ⊆ ids := fun id hid => (mem_named.1 hid).1
  have hsubperm : (s.named journeyId ids).Subperm ids := List.subperm_of_subset (named_nodup s journeyId ids) hsub
  rw [hcount]
  constructor
  · intro hlen
    have hperm : (s.named journeyId ids).Perm ids := hsubperm.perm_of_length_le hlen.ge
    exact ⟨hperm.nodup_iff.1 (named_nodup s journeyId ids), fun id hid => (mem_named.1 (hperm.mem_iff.2 hid)).2⟩
  · rintro ⟨hnodup, hall⟩
    have hsub' : ids ⊆ s.named journeyId ids := fun id hid => mem_named.2 ⟨hid, hall id hid⟩
    exact Nat.le_antisymm hsubperm.length_le (List.subperm_of_subset hnodup hsub').length_le

/-! ## What a claim hands out -/

theorem mem_due {r : StepRow} : r ∈ s.due now ↔ r ∈ s.steps.rows ∧ s.isDue now r = true := List.mem_filter

theorem mem_dueRows {r : StepRow} (h : r ∈ s.dueRows order now limit) : r ∈ s.due now :=
  (order.perm _).mem_iff.1 (List.mem_of_mem_take h)

theorem mem_claimable {r : StepRow} (h : r ∈ s.claimable order now limit) :
    r ∈ s.dueRows order now limit ∧ s.dependenciesSatisfied r.journeyId r.dependencyIds = true :=
  List.mem_filter.1 (List.mem_of_mem_take h)

theorem claimable_nodup : ((s.claimable order now limit).map (·.id)).Nodup := by
  have hdue : ((order.sort (s.due now)).map (·.id)).Nodup :=
    ((order.perm _).map _).nodup_iff.2 ((List.filter_sublist.map _).nodup (steps_nodup s.steps))
  refine List.Sublist.nodup (List.Sublist.map _ ?_) hdue
  exact (List.take_sublist _ _).trans (List.filter_sublist.trans (List.take_sublist _ _))

/-- Leasing rows with distinct ids, one after another: each row is touched once. -/
theorem rows_lease (claimed : List StepRow) (s : Store) (h : (claimed.map (·.id)).Nodup) :
    (claimed.foldl (fun s row => s.setStep row.id (·.unleased now) (Store.leased now leaseMs) fun _ _ => rfl) s).steps.rows =
      s.steps.rows.map fun r => if r.id ∈ claimed.map (·.id) ∧ r.unleased now = true then Store.leased now leaseMs r else r := by
  induction claimed generalizing s with
  | nil => simp
  | cons row rest ih =>
    obtain ⟨hrow, hrest⟩ := List.nodup_cons.1 h
    have hstep : (s.setStep row.id (·.unleased now) (Store.leased now leaseMs) fun _ _ => rfl).steps.rows =
        s.steps.rows.map fun r => if r.id = row.id && r.unleased now then Store.leased now leaseMs r else r := rfl
    rw [List.foldl_cons, ih _ hrest, hstep, List.map_map]
    refine List.map_congr_left fun r _ => ?_
    simp only [Function.comp, List.map_cons, List.mem_cons, Bool.and_eq_true, decide_eq_true_eq]
    by_cases h : r.id = row.id ∧ r.unleased now = true
    · have hleft : (Store.leased now leaseMs r).id ∉ rest.map (·.id) := by
        show r.id ∉ _
        rw [h.1]
        exact hrow
      rw [if_pos h, if_neg fun h' => hleft h'.1, if_pos ⟨Or.inl h.1, h.2⟩]
    · rw [if_neg h]
      refine if_congr ⟨?_, ?_⟩ rfl rfl
      · exact fun ⟨hmem, hfree⟩ => ⟨Or.inr hmem, hfree⟩
      · exact fun ⟨hmem, hfree⟩ => ⟨hmem.resolve_left fun hr => h ⟨hr, hfree⟩, hfree⟩

/-- **A claim returns the rows it chose, leased.** -/
theorem claimDueSteps_eq (order : DueOrder) (now leaseMs : Int) (limit : Nat) (s : Store) :
    (s.claimDueSteps order now leaseMs limit).1 = (s.claimable order now limit).map (Store.leased now leaseMs) := by
  have hrows := @rows_lease now leaseMs (s.claimable order now limit) s claimable_nodup
  unfold Store.claimDueSteps
  simp only []
  rw [← List.filterMap_eq_map]
  refine List.filterMap_congr fun row hrow => ?_
  obtain ⟨hmem, hdue⟩ := mem_due.1 (mem_dueRows (mem_claimable hrow).1)
  have hfree : row.unleased now = true := (Bool.and_eq_true_iff.1 hdue).2
  have hleased : Store.leased now leaseMs row ∈ ((s.claimable order now limit).foldl
      (fun s row => s.setStep row.id (·.unleased now) (Store.leased now leaseMs) fun _ _ => rfl) s).steps.rows := by
    rw [hrows]
    refine List.mem_map.2 ⟨row, hmem, if_pos ⟨List.mem_map_of_mem hrow, hfree⟩⟩
  exact Table.find?_of_mem (identifies_id row.id) hleased (decide_eq_true rfl)

/-- **No step is handed out before its dependencies are completed.** -/
theorem claimDueSteps_completed {step : StepRow} (h : step ∈ (s.claimDueSteps order now leaseMs limit).1) :
    s.DepsCompleted step := by
  rw [claimDueSteps_eq] at h
  obtain ⟨row, hrow, rfl⟩ := List.mem_map.1 h
  exact (dependenciesSatisfied_iff.1 (mem_claimable hrow).2).2

/-- **A claim hands something out** when one of the rows it reads is satisfied. -/
theorem claimDueSteps_ne_nil (hlimit : 1 ≤ limit) :
    (s.claimDueSteps order now leaseMs limit).1 ≠ [] ↔
      ∃ r ∈ (order.sort (s.due now)).take (limit * 5), s.dependenciesSatisfied r.journeyId r.dependencyIds = true := by
  have hread : s.dueRows order now limit = (order.sort (s.due now)).take (limit * 5) := by
    rw [Store.dueRows, Nat.max_eq_left (by omega)]
  rw [claimDueSteps_eq, Store.claimable, hread]
  obtain ⟨n, rfl⟩ : ∃ n, limit = n + 1 := ⟨limit - 1, by omega⟩
  rw [Ne, List.map_eq_nil_iff, List.take_eq_nil_iff, or_iff_right (by omega), List.filter_eq_nil_iff]
  push Not
  exact Iff.rfl

/-! ## Gating -/

/-- What is asked of a state of the store: no step is handed out too early, a step counts as satisfied exactly when
all its dependencies are completed, and while a step could go some step goes. -/
structure Gated (order : DueOrder) (s : Store) : Prop where
  sound : ∀ now leaseMs limit, ∀ step ∈ (s.claimDueSteps order now leaseMs limit).1, s.DepsCompleted step
  exact : ∀ step ∈ s.steps.rows, s.dependenciesSatisfied step.journeyId step.dependencyIds = true ↔ s.DepsCompleted step
  progress : ∀ now leaseMs limit, 1 ≤ limit → (∃ step ∈ s.steps.rows, s.isDue now step = true ∧ s.DepsCompleted step) →
    (s.claimDueSteps order now leaseMs limit).1 ≠ []

/-- No step repeats a dependency once they are all completed. -/
def NoRepeats (s : Store) : Prop := ∀ step ∈ s.steps.rows, s.DepsCompleted step → step.dependencyIds.Nodup

/-- While a step could go, one of the five that are due first could. -/
def FiveSuffice (order : DueOrder) (s : Store) : Prop :=
  ∀ now, (∃ step ∈ s.steps.rows, s.isDue now step = true ∧ s.DepsCompleted step) →
    ∃ step ∈ (order.sort (s.due now)).take 5, s.DepsCompleted step

/-- **The gate holds in a state exactly when** no step with completed dependencies repeats one, and at no time do
five steps that wait for others come first among the due steps while another could go. -/
theorem gated_iff (order : DueOrder) (s : Store) : Gated order s ↔ NoRepeats s ∧ FiveSuffice order s := by
  constructor
  · intro h
    refine ⟨fun step hstep hdone => ?_, fun now hsome => ?_⟩
    · exact (dependenciesSatisfied_iff.1 ((h.exact step hstep).2 hdone)).1
    · obtain ⟨r, hr, hsatisfied⟩ := (claimDueSteps_ne_nil Nat.le.refl).1 (h.progress now 0 1 Nat.le.refl hsome)
      exact ⟨r, hr, (dependenciesSatisfied_iff.1 hsatisfied).2⟩
  · rintro ⟨hrepeats, hfive⟩
    have hexact : ∀ step ∈ s.steps.rows,
        s.dependenciesSatisfied step.journeyId step.dependencyIds = true ↔ s.DepsCompleted step := fun step hstep =>
      ⟨fun h => (dependenciesSatisfied_iff.1 h).2, fun h => dependenciesSatisfied_iff.2 ⟨hrepeats step hstep h, h⟩⟩
    refine ⟨fun now leaseMs limit step hstep => claimDueSteps_completed hstep, hexact, ?_⟩
    intro now leaseMs limit hlimit hsome
    obtain ⟨r, hr, hdone⟩ := hfive now hsome
    have hmem : r ∈ s.steps.rows := (mem_due.1 ((order.perm _).mem_iff.1 (List.mem_of_mem_take hr))).1
    exact (claimDueSteps_ne_nil hlimit).2
      ⟨r, (List.take_sublist_take_left (by omega)).subset hr, (hexact r hmem).2 hdone⟩

/-! ### Two runs that lose a step -/

/-- The head of a list of five steps that wait for a sixth, which is not due before noon, and one that could go. -/
def blockedRun : List JourneyOp :=
  let waiting (id : String) (now : Int) : JourneyOp :=
    .addStep id "j" { owner := "o", title := "waits", dependencyIds := ["a"] } now
  [.create "j", .addStep "a" "j" { owner := "o", title := "later", wakeAt := some 1000 } 0,
    waiting "b1" 1, waiting "b2" 2, waiting "b3" 3, waiting "b4" 4, waiting "b5" 5,
    .addStep "c" "j" { owner := "o", title := "free" } 6]

/-- A step that names its one dependency twice. -/
def repeatedRun : List JourneyOp :=
  [.create "j", .addStep "a" "j" { owner := "o", title := "first" } 0,
    .addStep "b" "j" { owner := "o", title := "second", dependencyIds := ["a", "a"] } 1, .completeStep "a" "\x7b\x7d" 2]

/-- **A free step is kept back** behind five that wait, and a completed dependency named twice does not count. -/
theorem blocked_and_repeated : ¬Gated .stable (runOps blockedRun) ∧ ¬Gated .stable (runOps repeatedRun) := by
  constructor
  · intro h
    have hfree : ∃ step ∈ (runOps blockedRun).steps.rows,
        (runOps blockedRun).isDue 10 step = true ∧ step.dependencyIds = [] := by decide +kernel
    obtain ⟨step, hstep, hdue, hdeps⟩ := hfree
    refine h.progress 10 60000 1 Nat.le.refl ⟨step, hstep, hdue, fun id hid => ?_⟩ (by decide +kernel)
    rw [hdeps] at hid
    cases hid
  · intro h
    have hstuck : ∃ step ∈ (runOps repeatedRun).steps.rows,
        (runOps repeatedRun).dependenciesSatisfied step.journeyId step.dependencyIds = false ∧
        ∀ id ∈ step.dependencyIds, ∃ t ∈ (runOps repeatedRun).steps.rows,
          t.id = id ∧ t.journeyId = step.journeyId ∧ t.status = .completed := by decide +kernel
    obtain ⟨step, hstep, hrefused, hdone⟩ := hstuck
    rw [(h.exact step hstep).2 hdone] at hrefused
    cases hrefused

/-! ## Runs with distinct dependencies -/

/-- The step that is added, if one is, has distinct dependencies. -/
def JourneyOp.Distinct : JourneyOp → Prop
  | .addStep _ _ input _ => input.dependencyIds.Nodup
  | _ => True

def AllDistinct (s : Store) : Prop := ∀ r ∈ s.steps.rows, r.dependencyIds.Nodup

/-- An update that leaves the dependencies of each step alone. -/
theorem AllDistinct.setStep (h : AllDistinct s) {id : String} {p : StepRow → Bool} {f : StepRow → StepRow}
    {hf : ∀ r t, clash (f r) t = clash r t} (hdeps : ∀ r, (f r).dependencyIds = r.dependencyIds) :
    AllDistinct (s.setStep id p f hf) := by
  intro r hr
  obtain ⟨prior, hprior, rfl⟩ := List.mem_map.1 hr
  split
  next =>
    rw [hdeps]
    exact h prior hprior
  next => exact h prior hprior

theorem AllDistinct.setStatus (h : AllDistinct s) (id : String) (p : JourneyRow → Bool) (status : JourneyStatus) :
    AllDistinct (s.setStatus id p status) := h

theorem AllDistinct.readyPendingDependents (h : AllDistinct s) (journeyId : String) (now : Int) :
    AllDistinct (s.readyPendingDependents journeyId now) := by
  refine List.foldlRecOn _ _ h fun s hs step _ => ?_
  split
  next => exact hs.setStep fun _ => rfl
  next => exact hs

theorem AllDistinct.addStep (h : AllDistinct s) {id journeyId : String} {input : AddJourneyStepInput} {now : Int}
    (hinput : input.dependencyIds.Nodup) {s' : Store} (hs' : s.addStep id journeyId input now = .ok s') :
    AllDistinct s' := by
  unfold Store.addStep at hs'
  split at hs'
  next => cases hs'
  next =>
    split at hs'
    next =>
      cases hs'
      exact h
    next =>
      split at hs'
      next => cases hs'
      next steps hsteps =>
        cases hs'
        intro r hr
        rw [show steps.rows = _ from (Table.insert?_eq_some.1 hsteps).2] at hr
        rcases List.mem_append.1 hr with hr | hr
        · exact h r hr
        · rw [List.mem_singleton.1 hr]
          exact hinput

theorem AllDistinct.after (h : AllDistinct s) {op : JourneyOp} (hop : op.Distinct) : AllDistinct (op.after s) := by
  have hrequire : ∀ (id : String) (k : StepRow → Store), (∀ step, AllDistinct (k step)) →
      ∀ s', (s.requireStep id >>= fun step => pure (k step)) = .ok s' → AllDistinct s' := by
    intro id k hk s' hs'
    cases hr : s.requireStep id with
    | error e =>
      rw [hr] at hs'
      cases hs'
    | ok step =>
      rw [hr] at hs'
      cases hs'
      exact hk step
  cases op with
  | create id =>
    refine settled (P := AllDistinct) h (s.create id) fun s' hs' => ?_
    unfold Store.create at hs'
    split at hs'
    next => cases hs'
    next =>
      cases hs'
      exact h
  | addStep id journeyId input now =>
    exact settled (P := AllDistinct) h (s.addStep id journeyId input now) fun s' hs' => h.addStep hop hs'
  | dispatchStep stepId deadlineAt now =>
    exact settled (P := AllDistinct) h _ (hrequire stepId _ fun _ => h.setStep fun _ => rfl)
  | runStep stepId deadlineAt now =>
    exact settled (P := AllDistinct) h _ (hrequire stepId _ fun _ => h.setStep fun _ => rfl)
  | readyPendingDependents journeyId now => exact h.readyPendingDependents journeyId now
  | completeStep stepId result now =>
    refine settled (P := AllDistinct) h _ (hrequire stepId _ fun step => AllDistinct.readyPendingDependents ?_ step.journeyId now)
    exact h.setStep fun _ => rfl
  | completeJourneyIfReady journeyId =>
    show AllDistinct (s.completeJourneyIfReady journeyId)
    unfold Store.completeJourneyIfReady
    simp only []
    split
    next => exact h
    next => exact h
  | failStep stepId error now =>
    refine settled (P := AllDistinct) h _ (hrequire stepId _ fun step => AllDistinct.setStatus ?_ step.journeyId _ _)
    exact h.setStep fun _ => rfl
  | blockStep stepId reason now =>
    refine settled (P := AllDistinct) h _ (hrequire stepId _ fun step => AllDistinct.setStatus ?_ step.journeyId _ _)
    exact h.setStep fun _ => rfl
  | claimDueSteps order now leaseMs limit => exact List.foldlRecOn _ _ h fun s hs row _ => hs.setStep fun _ => rfl

/-- **Where every step that is added has distinct dependencies**, the first half of the condition holds in every
state reached. -/
theorem noRepeats_runOps {ops : List JourneyOp} (h : ∀ op ∈ ops, op.Distinct) : NoRepeats (runOps ops) := by
  have hall : AllDistinct (runOps ops) :=
    List.foldlRecOn ops _ (motive := AllDistinct) (fun r hr => by cases hr) fun s hs op hop => hs.after (h op hop)
  exact fun step hstep _ => hall step hstep

end Zenod.Journey
