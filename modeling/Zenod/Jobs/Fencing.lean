/-
Claims fence jobs (`taskJobStore.ts`): what one statement does to one row, and
from it what a run of statements of any processes does to a job.

`claims_fenced`: one claim at a time, no way back for an earlier one, and what
a finished claim wrote stays until a requeue or a later claim.
-/
import Zenod.Jobs.Store

namespace Zenod.Jobs

open Keyed Text TaskJobStore

variable {t t' t₀ t₁ : Table Row} {op : Op} {ops ops₁ ops₂ : List Op} {r r' : Row}

/-! ## One statement, one row -/

/-- A claimed operation changed a row: it ran under that claim, and still does or was released. -/
structure Fenced (s : TaskJobStore) (claim : Claim) (r r' : Row) : Prop where
  id : claim.id = r.id
  running : r.status = .running
  owner : r.ownerId = some s.ownerId
  token : claim.claimToken.isSome ∧ r.claimToken = claim.claimToken
  after : r'.status = .running ∧ r'.claimToken = r.claimToken ∧ r'.ownerId = r.ownerId ∨
    r'.status ≠ .running ∧ r'.claimToken = none

/-- A statement that puts a job that is not queued or running back in the queue. -/
def Op.requeues (op : Op) (id : Text) : Prop :=
  match op with
  | .requeueForRecovery _ job _ => job = id
  | .requeueFilingRecoveryBlocked _ _ => True
  | _ => False

/-- What a statement does to a row. -/
inductive RowStep (op : Op) (r : Row) : Row → Prop
  | same : RowStep op r r
  | tenant (tenantId : Option Text) (h : op.carrier = none) : RowStep op r { r with tenantId := tenantId }
  | requeued (h : op.requeues r.id) (hnot : r.status ≠ .running) (now : Int) : RowStep op r (requeued now r)
  | claimed (s : TaskJobStore) (token : Text) (now : Int) (h : op.token = some token) (hqueued : r.status = .queued) :
    RowStep op r (s.claimed token now r)
  | recovered (r' : Row) (h : op.carrier = none) (hrunning : r.status = .running) (hstatus : r'.status ≠ .running) (htoken : r'.claimToken = none)
    (hid : r'.id = r.id) (hresult : r'.resultJson = r.resultJson) : RowStep op r r'
  | fenced (r' : Row) (s : TaskJobStore) (claim : Claim) (h : op.carrier = some (s, claim)) (hfenced : Fenced s claim r r')
    (hid : r'.id = r.id) : RowStep op r r'

theorem RowStep.id_eq (h : RowStep op r r') : r'.id = r.id := by
  cases h with
  | same => rfl
  | tenant => rfl
  | requeued => rfl
  | claimed => rfl
  | recovered _ _ _ _ _ hid => exact hid
  | fenced _ _ _ _ _ hid => exact hid

/-- How the tables before and after a statement go together. -/
structure TableStep (op : Op) (t t' : Table Row) : Prop where
  forth : ∀ r ∈ t.rows, ∃ r' ∈ t'.rows, RowStep op r r'
  back : ∀ r' ∈ t'.rows, (∃ r ∈ t.rows, RowStep op r r') ∨
    (∀ r ∈ t.rows, r.id ≠ r'.id) ∧ r'.status = .queued ∧ r'.claimToken = none

theorem TableStep.refl (op : Op) (t : Table Row) : TableStep op t t where
  forth r hr := ⟨r, hr, .same⟩
  back r hr := Or.inl ⟨r, hr, .same⟩

/-- An update is told by what it does to the rows of its WHERE clause. -/
theorem TableStep.update {p : Row → Bool} {f : Row → Row} (hf : ∀ r r', clash (f r) r' = clash r r') (h : ∀ r ∈ t.rows, p r = true → RowStep op r (f r)) :
    TableStep op t (t.update p f hf) := by
  have hrow : ∀ r ∈ t.rows, RowStep op r (if p r then f r else r) := by
    intro r hr
    split
    next hp => exact h r hr hp
    next => exact .same
  constructor
  · intro r hr
    exact ⟨_, List.mem_map_of_mem hr, hrow r hr⟩
  · intro r' hr'
    obtain ⟨r, hr, rfl⟩ := List.mem_map.1 hr'
    exact Or.inl ⟨r, hr, hrow r hr⟩

theorem TableStep.backfill (h : op.carrier = none) (s : TaskJobStore) (t : Table Row) : TableStep op t (s.backfill t) := by
  have hrow : ∀ r, RowStep op r (s.backfilled r) := by
    intro r
    unfold backfilled
    split
    next => exact .tenant _ h
    next => exact .same
  unfold TaskJobStore.backfill
  split
  next =>
    refine ⟨fun r hr => ⟨_, List.mem_map_of_mem hr, hrow r⟩, fun r' hr' => ?_⟩
    obtain ⟨r, hr, rfl⟩ := List.mem_map.1 hr'
    exact Or.inl ⟨r, hr, hrow r⟩
  next => exact .refl op t

theorem TableStep.insert {row : Row} (h : t.insert? row = some t') (hqueued : row.status = .queued)
    (htoken : row.claimToken = none) : TableStep op t t' := by
  obtain ⟨hnew, hrows⟩ := Table.insert?_eq_some.1 h
  constructor
  · intro r hr
    exact ⟨r, by rw [hrows]; exact List.mem_append_left _ hr, .same⟩
  · intro r' hr'
    rw [hrows, List.mem_append, List.mem_singleton] at hr'
    rcases hr' with hr' | rfl
    · exact Or.inl ⟨r', hr', .same⟩
    · refine Or.inr ⟨fun r hr hid => ?_, hqueued, htoken⟩
      have hclash : (r.id == r'.id || r.sameKey r') = false := hnew r hr
      rw [hid, beq_self_eq_true, Bool.true_or] at hclash
      cases hclash

theorem TableStep.enqueue {s : TaskJobStore} {id inputJson : Text} {kind : TaskJobKind} {key : Option Text} {now : Int}
    {row : Row} (h : s.enqueue id kind inputJson key now t = .ok (row, t')) : TableStep op t t' := by
  unfold TaskJobStore.enqueue at h
  simp only [] at h
  split at h
  next key _ =>
    split at h
    next => cases h
    next =>
      split at h
      next => cases h
      next =>
        split at h
        next => cases h
        next =>
          split at h
          next => cases h
          next =>
            cases h
            cases hinsert : t.insert? _ with
            | none => exact .refl op t
            | some t' => exact .insert hinsert rfl rfl
  next =>
    split at h
    next => cases h
    next hinsert =>
      cases h
      exact .insert hinsert rfl rfl

theorem queued_ne : TaskJobStatus.queued ≠ .running := by decide

theorem interrupted_ne : TaskJobStatus.interrupted ≠ .running := by decide

theorem isExpired_running {s : TaskJobStore} {now : Int} (h : r.isExpired s now = true) : r.status = .running := by
  unfold Row.isExpired at h
  simp only [Bool.and_eq_true, decide_eq_true_eq] at h
  exact h.1.2

theorem isLive_iff {s : TaskJobStore} {token : Option Text} {now : Int} : r.isLive s token now = true ↔
    r.status = .running ∧ r.ownerId = some s.ownerId ∧ (token.isSome ∧ r.claimToken = token) ∧
      r.leaseExpiresAt.any (now < ·) = true := by
  unfold Row.isLive
  simp only [Bool.and_eq_true, decide_eq_true_eq, and_assoc]

/-- An update that needs a live claim. -/
theorem Fenced.of_isLive {s : TaskJobStore} {claim : Claim} {now : Int} (hid : r.id = claim.id)
    (hlive : r.isLive s claim.claimToken now = true)
    (hafter : r'.status = .running ∧ r'.claimToken = r.claimToken ∧ r'.ownerId = r.ownerId ∨
      r'.status ≠ .running ∧ r'.claimToken = none) : Fenced s claim r r' := by
  obtain ⟨hrunning, howner, htoken, -⟩ := isLive_iff.1 hlive
  exact ⟨hid.symm, hrunning, howner, htoken, hafter⟩

theorem TableStep.requeueFiling {s : TaskJobStore} {claim : Claim} (h : op.carrier = some (s, claim))
    (resultJson error : Option Text) (now : Int) (t : Table Row) :
    TableStep op t (s.requeueFiling claim resultJson error now t).2 := by
  refine .update (f := fun r => { r.released .queued now with
    resultJson := resultJson.or r.resultJson, error := error, attempts := r.attempts + 1 }) (fun _ _ => rfl) fun r _ hp => ?_
  simp only [Bool.and_eq_true, decide_eq_true_eq] at hp
  exact .fenced _ s claim h (.of_isLive hp.1.1.1.2 hp.1.2 (Or.inr ⟨queued_ne, rfl⟩)) rfl

theorem TableStep.updateClaimed {s : TaskJobStore} {claim : Claim} (h : op.carrier = some (s, claim)) (patch : TaskJobPatch)
    (now : Int) (t : Table Row) : TableStep op t (s.updateClaimed claim patch now t).2 := by
  unfold TaskJobStore.updateClaimed applyPatch
  split
  next => exact .refl op t
  next =>
    refine .update (f := patched patch (some claim.claimToken).isSome now) (fun _ _ => rfl) fun r _ hp => ?_
    simp only [Option.all_some, Bool.and_eq_true, decide_eq_true_eq] at hp
    refine .fenced _ s claim h (.of_isLive hp.1.2 hp.2 ?_) rfl
    obtain ⟨hrunning, -⟩ := isLive_iff.1 hp.2
    -- The claim is kept by a patch without a status, and by one that says running.
    by_cases hclears : patch.status.any (· ≠ .running) = true
    · refine Or.inr ⟨?_, ?_⟩
      · show patch.status.getD r.status ≠ .running
        cases hstatus : patch.status with
        | none =>
          rw [hstatus] at hclears
          cases hclears
        | some status =>
          rw [hstatus] at hclears
          simpa using hclears
      · show (if (true && patch.status.any (· ≠ .running)) = true then none else r.claimToken) = none
        rw [Bool.true_and, if_pos hclears]
    · refine Or.inl ⟨?_, ?_, ?_⟩
      · show patch.status.getD r.status = .running
        cases hstatus : patch.status with
        | none => exact hrunning
        | some status =>
          rw [hstatus] at hclears
          simpa using hclears
      · show (if (true && patch.status.any (· ≠ .running)) = true then none else r.claimToken) = r.claimToken
        rw [Bool.true_and, if_neg hclears]
      · show (if (true && patch.status.any (· ≠ .running)) = true then none else r.ownerId) = r.ownerId
        rw [Bool.true_and, if_neg hclears]

/-- **What a statement does to the table**, whichever it is. -/
theorem step_table (h : t' ∈ op.outcomes t) : TableStep op t t' := by
  cases op with
  | backfill s =>
    obtain rfl := List.mem_singleton.1 h
    exact .backfill rfl s t
  | requeueExpired s now =>
    obtain rfl := List.mem_singleton.1 h
    refine .update _ fun r _ hp => ?_
    simp only [Bool.and_eq_true] at hp
    exact .recovered _ rfl (isExpired_running hp.1.1) queued_ne rfl rfl rfl
  | interruptExpired s now =>
    obtain rfl := List.mem_singleton.1 h
    exact .update _ fun r _ hp => .recovered _ rfl (isExpired_running hp) interrupted_ne rfl rfl rfl
  | enqueue s id kind inputJson key now =>
    simp only [Op.outcomes] at h
    cases hok : s.enqueue id kind inputJson key now t with
    | ok outcome =>
      rw [hok] at h
      obtain rfl := List.mem_singleton.1 h
      exact .enqueue hok
    | error message =>
      rw [hok] at h
      obtain rfl := List.mem_singleton.1 h
      exact .refl _ t'
  | claimNextQueued s token now kinds =>
    obtain ⟨outcome, houtcome, rfl⟩ := List.mem_map.1 h
    unfold claimNextQueued at houtcome
    split at houtcome
    next =>
      obtain rfl := List.mem_singleton.1 houtcome
      exact .refl _ t
    next =>
      split at houtcome
      next =>
        obtain rfl := List.mem_singleton.1 houtcome
        exact .refl _ t
      next =>
        obtain ⟨row, -, rfl⟩ := List.mem_map.1 houtcome
        refine .update (f := s.claimed token now) (fun _ _ => rfl) fun r _ hp => ?_
        simp only [Bool.and_eq_true, decide_eq_true_eq] at hp
        exact .claimed s token now rfl hp.1.2
  | renewClaim s claim now =>
    obtain rfl := List.mem_singleton.1 h
    refine .update (f := fun r => { r with leaseExpiresAt := some (now + taskJobLeaseMs), updatedAt := now }) (fun _ _ => rfl)
      fun r _ hp => ?_
    simp only [Bool.and_eq_true, decide_eq_true_eq] at hp
    obtain ⟨hrunning, -⟩ := isLive_iff.1 hp.2
    exact .fenced _ s claim rfl (.of_isLive hp.1.2 hp.2 (Or.inl ⟨hrunning, rfl, rfl⟩)) rfl
  | assertClaim s claim now =>
    obtain rfl := List.mem_singleton.1 h
    exact .refl _ t'
  | updateClaimed s claim patch now =>
    obtain rfl := List.mem_singleton.1 h
    exact .updateClaimed rfl patch now t
  | resumePending s claim result now =>
    obtain rfl := List.mem_singleton.1 h
    unfold resumePending
    split
    next => exact .requeueFiling rfl _ _ now t
    next => exact .refl _ t
  | resumePublicationFailure s claim error now =>
    obtain rfl := List.mem_singleton.1 h
    exact .requeueFiling rfl _ _ now t
  | requeueForRecovery s id now =>
    obtain rfl := List.mem_singleton.1 h
    refine .update (f := requeued now) (fun _ _ => rfl) fun r _ hp => ?_
    simp only [Bool.and_eq_true, decide_eq_true_eq, Bool.not_eq_true', Bool.or_eq_false_iff, decide_eq_false_iff_not] at hp
    have hid : (Op.requeueForRecovery s id now).requeues r.id := hp.1.2.symm
    exact .requeued hid hp.2.2 now
  | requeueFilingRecoveryBlocked s now =>
    obtain rfl := List.mem_singleton.1 h
    refine .update (f := requeued now) (fun _ _ => rfl) fun r _ hp => ?_
    have hstatus : r.status = .error := by
      unfold isRecoveryBlocked at hp
      simp only [Bool.and_eq_true, decide_eq_true_eq] at hp
      exact hp.1.1.2
    have hrequeues : (Op.requeueFilingRecoveryBlocked s now).requeues r.id := trivial
    exact .requeued hrequeues (by rw [hstatus]; decide) now

/-! ## One claim at a time -/

theorem eq_of_id {r r' : Row} (hr : r ∈ t.rows) (hr' : r' ∈ t.rows) (h : r.id = r'.id) : r = r' := by
  refine Table.eq_of_identifies (q := fun x => x.id = r'.id) ?_ hr hr' (decide_eq_true h) (decide_eq_true rfl)
  intro a b ha hb
  rw [decide_eq_true_eq] at ha hb
  show (a.id == b.id || a.sameKey b) = true
  rw [ha, hb, beq_self_eq_true, Bool.true_or]

/-- The job runs under the token. -/
def Held (t : Table Row) (job token : Text) : Prop :=
  ∃ r ∈ t.rows, r.id = job ∧ r.status = .running ∧ r.claimToken = some token

/-- The store and the claim pass the fence of a job, or change the job through a claimed operation. -/
def Acts (t : Table Row) (job : Text) (s : TaskJobStore) (claim : Claim) : Prop :=
  (claim.id = job ∧ ∃ now, s.assertClaim claim now t = .ok ()) ∨
    ∃ op : Op, op.carrier = some (s, claim) ∧ ∃ t' ∈ op.outcomes t, ∃ r ∈ t.rows, r.id = job ∧ r ∉ t'.rows

/-- A claimed operation changes no row but the one that runs under its claim. -/
theorem RowStep.eq_or_fenced {s : TaskJobStore} {claim : Claim} (h : RowStep op r r') (hop : op.carrier = some (s, claim)) :
    r' = r ∨ Fenced s claim r r' := by
  cases h with
  | same => exact Or.inl rfl
  | tenant _ hnone => rw [hop] at hnone; cases hnone
  | requeued hrequeues =>
    cases op with
    | requeueForRecovery => cases hop
    | requeueFilingRecoveryBlocked => cases hop
    | _ => exact hrequeues.elim
  | claimed s' token now htoken =>
    cases op with
    | claimNextQueued => cases hop
    | _ => cases htoken
  | recovered _ hnone => rw [hop] at hnone; cases hnone
  | fenced _ s' claim' hop' hfenced =>
    rw [hop] at hop'
    cases hop'
    exact Or.inr hfenced

theorem Acts.row {job : Text} {s : TaskJobStore} {claim : Claim} (h : Acts t job s claim) :
    ∃ r ∈ t.rows, r.id = job ∧ r.ownerId = some s.ownerId ∧ r.claimToken = claim.claimToken := by
  rcases h with ⟨rfl, now, hassert⟩ | ⟨op, hop, t', ht', r, hr, rfl, hchanged⟩
  · unfold assertClaim at hassert
    split at hassert
    next hany =>
      obtain ⟨r, hr, hrow⟩ := List.any_eq_true.1 hany
      simp only [Bool.and_eq_true, decide_eq_true_eq] at hrow
      obtain ⟨-, howner, htoken, -⟩ := isLive_iff.1 hrow.2
      exact ⟨r, hr, hrow.1.2, howner, htoken.2⟩
    next => cases hassert
  · obtain ⟨r', hr', hstep⟩ := (step_table ht').forth r hr
    rcases hstep.eq_or_fenced hop with rfl | hfenced
    · exact absurd hr' hchanged
    · exact ⟨r, hr, rfl, hfenced.owner, hfenced.token.2⟩

/-! ## Tokens that were given out -/

/-- The tokens that claims of a run draw. -/
def drawn (ops : List Op) : List Text := ops.filterMap Op.token

/-- Tokens are drawn once, and none that the table has. -/
structure Fresh (t₀ : Table Row) (ops : List Op) : Prop where
  nodup : (drawn ops).Nodup
  new : ∀ token ∈ drawn ops, ∀ r ∈ t₀.rows, r.claimToken ≠ some token

/-- A token that the table had at first, or that a claim drew. -/
def Issued (t₀ : Table Row) (ops : List Op) (token : Text) : Prop :=
  (∃ r ∈ t₀.rows, r.claimToken = some token) ∨ token ∈ drawn ops

theorem Issued.not_drawn {token : Text} (h : Issued t₀ ops₁ token) (hfresh : Fresh t₀ (ops₁ ++ ops₂)) :
    token ∉ drawn ops₂ := by
  intro hdrawn
  have happend : drawn (ops₁ ++ ops₂) = drawn ops₁ ++ drawn ops₂ := List.filterMap_append
  rcases h with ⟨r, hr, hr'⟩ | hearlier
  · refine hfresh.new token ?_ r hr hr'
    rw [happend]
    exact List.mem_append_right _ hdrawn
  · have hnodup := hfresh.nodup
    rw [happend, List.nodup_append] at hnodup
    exact hnodup.2.2 _ hearlier _ hdrawn rfl

/-- A row that runs did so before under its token, or was claimed. -/
theorem RowStep.running (h : RowStep op r r') (hrunning : r'.status = .running) :
    (r.status = .running ∧ r'.claimToken = r.claimToken) ∨ ∃ token, op.token = some token ∧ r'.claimToken = some token := by
  cases h with
  | same => exact Or.inl ⟨hrunning, rfl⟩
  | tenant => exact Or.inl ⟨hrunning, rfl⟩
  | requeued => cases hrunning
  | claimed s token now hop => exact Or.inr ⟨token, hop, rfl⟩
  | recovered _ _ _ hnot => exact absurd hrunning hnot
  | fenced _ s claim _ hfenced =>
    rcases hfenced.after with ⟨-, hkept, -⟩ | ⟨hnot, -⟩
    · exact Or.inl ⟨hfenced.running, hkept⟩
    · exact absurd hrunning hnot

theorem mem_drawn_concat {token : Text} : token ∈ drawn (ops ++ [op]) ↔ token ∈ drawn ops ∨ op.token = some token := by
  unfold drawn
  rw [List.filterMap_append, List.mem_append]
  refine or_congr_right ?_
  rw [List.mem_filterMap]
  simp only [List.mem_singleton, exists_eq_left]

/-- **A token that was given up stays so**, unless it is drawn again. -/
theorem Run.not_held {job token : Text} (h : Run t₁ ops t) (hnot : ¬Held t₁ job token) (hdrawn : token ∉ drawn ops) :
    ¬Held t job token := by
  induction h with
  | nil => exact hnot
  | snoc h op hop ih =>
    rename_i t t' ops
    rw [mem_drawn_concat, not_or] at hdrawn
    rintro ⟨r', hr', hid, hrunning, htoken⟩
    rcases (step_table hop).back r' hr' with ⟨r, hr, hstep⟩ | ⟨-, hqueued, -⟩
    · rcases hstep.running hrunning with ⟨hbefore, hkept⟩ | ⟨token', hop', htoken'⟩
      · exact ih hdrawn.1 ⟨r, hr, hstep.id_eq.symm.trans hid, hbefore, hkept.symm.trans htoken⟩
      · exact hdrawn.2 (hop'.trans (htoken'.symm.trans htoken))
    · rw [hqueued] at hrunning
      cases hrunning

/-- A job that runs again was claimed since. -/
theorem Run.claimed {job : Text} (h : Run t₁ ops t) (hnot : ∀ r ∈ t₁.rows, r.id = job → r.status ≠ .running) :
    ∀ r ∈ t.rows, r.id = job → r.status = .running → ∃ token ∈ drawn ops, r.claimToken = some token := by
  induction h with
  | nil => exact fun r hr hid hrunning => absurd hrunning (hnot r hr hid)
  | snoc h op hop ih =>
    rename_i t t' ops
    intro r' hr' hid hrunning
    rcases (step_table hop).back r' hr' with ⟨r, hr, hstep⟩ | ⟨-, hqueued, -⟩
    · rcases hstep.running hrunning with ⟨hbefore, hkept⟩ | ⟨token, hop', htoken⟩
      · obtain ⟨token, hdrawn, htoken⟩ := ih r hr (hstep.id_eq.symm.trans hid) hbefore
        exact ⟨token, mem_drawn_concat.2 (Or.inl hdrawn), hkept.trans htoken⟩
      · exact ⟨token, mem_drawn_concat.2 (Or.inr hop'), htoken⟩
    · rw [hqueued] at hrunning
      cases hrunning

/-! ## What a finished claim wrote -/

/-- A result is written under a claim only. -/
theorem RowStep.result (h : RowStep op r r') (hne : r'.resultJson ≠ r.resultJson) :
    ∃ s claim, op.carrier = some (s, claim) ∧ claim.claimToken.isSome ∧ r.status = .running ∧ r.claimToken = claim.claimToken := by
  cases h with
  | same => exact absurd rfl hne
  | tenant => exact absurd rfl hne
  | requeued => exact absurd rfl hne
  | claimed => exact absurd rfl hne
  | recovered _ _ _ _ _ _ hresult => exact absurd hresult hne
  | fenced _ s claim hop hfenced => exact ⟨s, claim, hop, hfenced.token.1, hfenced.running, hfenced.token.2⟩

/-- A status is changed by a requeue, by a claim, or while the job runs. -/
theorem RowStep.status (h : RowStep op r r') (hne : r'.status ≠ r.status) :
    op.requeues r.id ∨ (∃ token, op.token = some token ∧ r'.claimToken = some token) ∨ r.status = .running := by
  cases h with
  | same => exact absurd rfl hne
  | tenant => exact absurd rfl hne
  | requeued hrequeues => exact Or.inl hrequeues
  | claimed s token now hop => exact Or.inr (Or.inl ⟨token, hop, rfl⟩)
  | recovered _ _ hrunning => exact Or.inr (Or.inr hrunning)
  | fenced _ s claim _ hfenced => exact Or.inr (Or.inr hfenced.running)

/-- **Claims fence jobs.** At any time one owner and token act on a job, and it runs under one token. A token that a job
does not run under any more, because it was requeued, claimed anew or finished, is never its token again, and no operation
under it changes the job. What stands in a job that has finished is replaced by a requeue, a claim, or under a claim made
since. -/
theorem claims_fenced (hfresh : Fresh t₀ ops) :
    (∀ t, Run t₀ ops t → ∀ job,
      (∀ s₁ claim₁ s₂ claim₂, Acts t job s₁ claim₁ → Acts t job s₂ claim₂ →
        s₁.ownerId = s₂.ownerId ∧ claim₁.claimToken = claim₂.claimToken) ∧
      ∀ token token', Held t job token → Held t job token' → token = token') ∧
    ∀ ops₁ ops₂ t₁ t, ops = ops₁ ++ ops₂ → Run t₀ ops₁ t₁ → Run t₁ ops₂ t →
      (∀ job token, Issued t₀ ops₁ token → ¬Held t₁ job token → ¬Held t job token ∧
        ∀ (op : Op) s claim, op.carrier = some (s, claim) → claim.claimToken = some token → ∀ t' ∈ op.outcomes t,
          ∀ r ∈ t.rows, r.id = job → r ∈ t'.rows) ∧
      (∀ r₁ ∈ t₁.rows, r₁.status ≠ .running → ∀ (op : Op), ∀ t' ∈ op.outcomes t, ∀ r ∈ t.rows, ∀ r' ∈ t'.rows,
        r.id = r₁.id → r'.id = r₁.id →
        (r'.resultJson ≠ r.resultJson → ∃ s claim, op.carrier = some (s, claim) ∧
          ∃ token ∈ drawn ops₂, claim.claimToken = some token ∧ Held t r₁.id token) ∧
        (r'.status ≠ r.status → op.requeues r₁.id ∨ (∃ token, op.token = some token ∧ r'.claimToken = some token) ∨
          ∃ token ∈ drawn ops₂, Held t r₁.id token)) := by
  refine ⟨fun t _ job => ⟨?_, ?_⟩, fun ops₁ ops₂ t₁ t hops _ hrest => ⟨?_, ?_⟩⟩
  · intro s₁ claim₁ s₂ claim₂ h₁ h₂
    obtain ⟨r, hr, hid, howner, htoken⟩ := h₁.row
    obtain ⟨r', hr', hid', howner', htoken'⟩ := h₂.row
    obtain rfl := eq_of_id hr hr' (hid.trans hid'.symm)
    exact ⟨Option.some.inj (howner.symm.trans howner'), htoken.symm.trans htoken'⟩
  · rintro token token' ⟨r, hr, hid, -, htoken⟩ ⟨r', hr', hid', -, htoken'⟩
    obtain rfl := eq_of_id hr hr' (hid.trans hid'.symm)
    exact Option.some.inj (htoken.symm.trans htoken')
  · intro job token hissued hnot
    have hnot' := hrest.not_held hnot (hissued.not_drawn (hops ▸ hfresh))
    refine ⟨hnot', fun op s claim hop htoken t' ht' r hr hid => ?_⟩
    obtain ⟨r', hr', hstep⟩ := (step_table ht').forth r hr
    rcases hstep.eq_or_fenced hop with rfl | hfenced
    · exact hr'
    · exact absurd ⟨r, hr, hid, hfenced.running, hfenced.token.2.trans htoken⟩ hnot'
  · intro r₁ hr₁ hfinished op t' ht' r hr r' hr' hid hid'
    have hstep : RowStep op r r' := by
      obtain ⟨found, hfound, hstep⟩ := (step_table ht').forth r hr
      rwa [eq_of_id hfound hr' (hstep.id_eq.trans (hid.trans hid'.symm))] at hstep
    have hfinal : ∀ x ∈ t₁.rows, x.id = r₁.id → x.status ≠ .running := by
      intro x hx hxid
      rwa [eq_of_id hx hr₁ hxid]
    have hlater := hrest.claimed hfinal r hr hid
    constructor
    · intro hne
      obtain ⟨s, claim, hop, -, hrunning, htoken⟩ := hstep.result hne
      obtain ⟨token, hdrawn, htoken'⟩ := hlater hrunning
      exact ⟨s, claim, hop, token, hdrawn, htoken.symm.trans htoken', r, hr, hid, hrunning, htoken'⟩
    · intro hne
      rcases hstep.status hne with hrequeues | hclaimed | hrunning
      · exact Or.inl (hid ▸ hrequeues)
      · exact Or.inr (Or.inl hclaimed)
      · obtain ⟨token, hdrawn, htoken⟩ := hlater hrunning
        exact Or.inr (Or.inr ⟨token, hdrawn, r, hr, hid, hrunning, htoken⟩)

/-! ## A run of two processes -/

def firstProcess : TaskJobStore := ⟨"standalone".toList, "a".toList⟩
def secondProcess : TaskJobStore := ⟨"standalone".toList, "b".toList⟩

/-- The first process claims a capture and is silent, the second finds its lease expired and queues the job again. -/
def lapsed : List Op :=
  [.enqueue firstProcess "j".toList .store "{}".toList none 0, .claimNextQueued firstProcess "t1".toList 1 none,
    .requeueExpired secondProcess 300000]

/-- The second process claims the job and finishes it. -/
def finished : List Op :=
  [.claimNextQueued secondProcess "t2".toList 300001 none,
    .updateClaimed secondProcess ⟨"j".toList, some "t2".toList⟩ { status := some .done, result := some (some "{}".toList) }
      300002]

/-- The first table each statement may leave. -/
def runOps (t : Table Row) (ops : List Op) : Table Row := ops.foldl (fun t op => (op.outcomes t).headD t) t

theorem run_lapsed : Run .empty lapsed (runOps .empty lapsed) := by
  have hqueued : Run .empty (lapsed.take 1) (runOps .empty (lapsed.take 1)) := .snoc (.nil _) _ (by decide +kernel)
  have hclaimed : Run .empty (lapsed.take 2) (runOps .empty (lapsed.take 2)) := .snoc hqueued _ (by decide +kernel)
  exact .snoc hclaimed _ (by decide +kernel)

theorem run_finished : Run (runOps .empty lapsed) finished (runOps (runOps .empty lapsed) finished) := by
  have hclaimed : Run (runOps .empty lapsed) (finished.take 1) (runOps (runOps .empty lapsed) (finished.take 1)) :=
    .snoc (.nil _) _ (by decide +kernel)
  exact .snoc hclaimed _ (by decide +kernel)

/-- The first claim ends with the job back in the queue, and changes nothing any more. -/
theorem lapsed_fenced : Fresh .empty (lapsed ++ finished) ∧
    ∀ (op : Op) s claim, op.carrier = some (s, claim) → claim.claimToken = some "t1".toList →
      ∀ t' ∈ op.outcomes (runOps (runOps .empty lapsed) finished),
        ∀ r ∈ (runOps (runOps .empty lapsed) finished).rows, r.id = "j".toList → r ∈ t'.rows := by
  have hfresh : Fresh .empty (lapsed ++ finished) := ⟨by decide +kernel, fun _ _ r hr => by cases hr⟩
  have hissued : Issued .empty lapsed "t1".toList := Or.inr (by decide +kernel)
  have hnot : ¬Held (runOps .empty lapsed) "j".toList "t1".toList := by
    have hnone : ∀ r ∈ (runOps .empty lapsed).rows, r.status ≠ .running := by decide +kernel
    rintro ⟨r, hr, -, hrunning, -⟩
    exact hnone r hr hrunning
  exact ⟨hfresh,
    (((claims_fenced hfresh).2 lapsed finished _ _ rfl run_lapsed run_finished).1 "j".toList "t1".toList hissued hnot).2⟩

end Zenod.Jobs
