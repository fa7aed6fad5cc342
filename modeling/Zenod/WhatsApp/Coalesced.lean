/-
Who owns a recording that comes several times.

`one_live_owner`: a duplicate points to its owner and has its outcome, and
stays a duplicate; and of one recording at most one owner is alive within a
window, provided none is revived beside another one.
-/
import Mathlib
import Zenod.Lib.Course
import Zenod.WhatsApp.VoiceStore

namespace Zenod.WhatsApp

open Keyed Text

variable {s s' s₁ : Store} {op : Op} {a b c d : Coalescing} {id : Text} {now : Int}

/-! ## Rows that keep what they are -/

/-- What a row of the coalesced media never changes. -/
structure SameClaim (c c' : Coalescing) : Prop where
  providerMessageId : c'.providerMessageId = c.providerMessageId
  tenantId : c'.tenantId = c.tenantId
  channel : c'.channel = c.channel
  artifactSha256 : c'.artifactSha256 = c.artifactSha256
  canonical : c'.canonicalProviderMessageId = c.canonicalProviderMessageId
  role : c'.role = c.role
  windowMs : c'.windowMs = c.windowMs
  createdAt : c'.createdAt = c.createdAt

theorem SameClaim.refl (c : Coalescing) : SameClaim c c := ⟨rfl, rfl, rfl, rfl, rfl, rfl, rfl, rfl⟩

theorem SameClaim.trans {c₁ c₂ c₃ : Coalescing} (h : SameClaim c₁ c₂) (h' : SameClaim c₂ c₃) : SameClaim c₁ c₃ where
  providerMessageId := h'.providerMessageId.trans h.providerMessageId
  tenantId := h'.tenantId.trans h.tenantId
  channel := h'.channel.trans h.channel
  artifactSha256 := h'.artifactSha256.trans h.artifactSha256
  canonical := h'.canonical.trans h.canonical
  role := h'.role.trans h.role
  windowMs := h'.windowMs.trans h.windowMs
  createdAt := h'.createdAt.trans h.createdAt

/-- The outcomes are set by what was the owner and the outcome of each row. -/
def Settled (outcome : Text → OutcomeState → OutcomeState) (s s' : Store) : Prop :=
  ∃ f : Coalescing → Coalescing, s'.coalescings.rows = s.coalescings.rows.map f ∧
    ∀ c, SameClaim c (f c) ∧ (f c).outcome = outcome c.canonicalProviderMessageId c.outcome

theorem Settled.of_eq (h : s'.coalescings = s.coalescings) : Settled (fun _ o => o) s s' :=
  ⟨fun c => c, by rw [h, List.map_id'], fun c => ⟨.refl c, rfl⟩⟩

theorem Settled.trans {g h : Text → OutcomeState → OutcomeState} (hg : Settled g s s₁) (hh : Settled h s₁ s') :
    Settled (fun k o => h k (g k o)) s s' := by
  obtain ⟨f, hf, hsame⟩ := hg
  obtain ⟨f', hf', hsame'⟩ := hh
  refine ⟨fun c => f' (f c), by rw [hf', hf, List.map_map]; rfl, fun c => ⟨(hsame c).1.trans (hsame' (f c)).1, ?_⟩⟩
  rw [(hsame' (f c)).2, (hsame c).1.canonical, (hsame c).2]

theorem Settled.congr {g h : Text → OutcomeState → OutcomeState} (hg : Settled g s s') (heq : ∀ k o, g k o = h k o) :
    Settled h s s' := by
  obtain ⟨f, hf, hsame⟩ := hg
  exact ⟨f, hf, fun c => ⟨(hsame c).1, (hsame c).2.trans (heq _ _)⟩⟩

/-- An update of the outcome of some rows, told by their owner and outcome. -/
theorem settled_update (p : Text → OutcomeState → Bool) (o : OutcomeState) (now : Int) (hf)
    (h : s'.coalescings = s.coalescings.update (fun c => p c.canonicalProviderMessageId c.outcome)
      (fun c => { c with outcome := o, updatedAt := now }) hf) :
    Settled (fun k x => if p k x then o else x) s s' := by
  refine ⟨fun c => if p c.canonicalProviderMessageId c.outcome then { c with outcome := o, updatedAt := now } else c, ?_, ?_⟩
  · rw [h]
    rfl
  · intro c
    dsimp only
    split
    · exact ⟨⟨rfl, rfl, rfl, rfl, rfl, rfl, rfl, rfl⟩, rfl⟩
    · exact ⟨.refl c, rfl⟩

theorem settled_settle (canonical : Text) (outcome : OutcomeState) (now : Int) :
    Settled (fun k x => if k = canonical then outcome else x) s (s.settle canonical outcome now) :=
  (settled_update (fun k _ => decide (k = canonical)) outcome now (fun _ _ => rfl) rfl).congr fun k x => by
    simp only [decide_eq_true_eq]

theorem coalescings_upsertRecovery (r : Recovery) (p : Recovery → Bool) :
    (s.upsertRecovery r p).coalescings = s.coalescings := by
  unfold Store.upsertRecovery
  split <;> rfl

theorem settled_foldl (ids : List Text) (outcome : OutcomeState) (now : Int) : ∀ s : Store,
    Settled (fun k x => if k ∈ ids then outcome else x) s (ids.foldl (fun s id => s.settle id outcome now) s) := by
  induction ids with
  | nil => exact fun s => (Settled.of_eq rfl).congr fun k x => by simp
  | cons id ids ih =>
    intro s
    refine ((settled_settle id outcome now).trans (ih _)).congr fun k x => ?_
    by_cases hk : k = id <;> simp [hk]

/-! ## Operations -/

/-- The owners whose outcome the operation takes back to processing, or on to completed. -/
def Store.revives (s : Store) : Op → Text → Bool
  | .resumeIdempotentVoiceCaptures tenantId _, k => (s.deferredCaptures tenantId).contains k
  | .completeInterruptedMediaRecovery claim (.sent _ _) _, k => claim.kind = .forwardedReply && k = claim.providerMessageId
  | .completeMediaCoalescing canonical completed _, k => completed && k = canonical
  | _, _ => false

/-- The outcomes that an operation sets, but for those it revives: what failed stays so. -/
def KeepsFailed (s : Store) (op : Op) (s' : Store) : Prop :=
  ∃ outcome, Settled outcome s s' ∧ ∀ k, s.revives op k = false → outcome k .failed = .failed

theorem KeepsFailed.of_eq (h : s'.coalescings = s.coalescings) : KeepsFailed s op s' :=
  ⟨_, .of_eq h, fun _ _ => rfl⟩

/-- What fails an owner keeps what failed. -/
theorem KeepsFailed.of_settle (h : s₁.coalescings = s.coalescings) (h' : s'.coalescings = (s₁.settle id .failed now).coalescings) :
    KeepsFailed s op s' := by
  refine ⟨_, ((Settled.of_eq h).trans (settled_settle id .failed now)).trans (.of_eq h'), fun k _ => ?_⟩
  show (if k = id then OutcomeState.failed else .failed) = .failed
  rw [ite_self]

theorem keepsFailed_reopen (now : Int) : KeepsFailed s (.reopen now) (s.reopen now) := by
  have hmessages : ∀ t : Store, (t.recoverMessages now).coalescings = t.coalescings := by
    intro t
    have hfold : ∀ (l : List Message) (r : Message → Recovery) (u : Store),
        (l.foldl (fun u m => u.upsertRecovery (r m) fun _ => false) u).coalescings = u.coalescings := by
      intro l r
      induction l with
      | nil => exact fun _ => rfl
      | cons m l ih => exact fun u => (ih _).trans (coalescings_upsertRecovery _ _)
    exact hfold _ _ _
  refine ⟨_, ((Settled.of_eq rfl).trans ((settled_update (fun k x => x = .processing && (s.recoverJobs now).isAnswered k)
    .completed now (fun _ _ => rfl) rfl).trans (settled_update (fun k x => x = .processing && !(s.recoverJobs now).isWaiting k)
    .failed now (fun _ _ => rfl) rfl))).trans (.of_eq (hmessages ((s.recoverJobs now |>.recoverCoalescing now).recoverClaims now))),
    fun k _ => ?_⟩
  simp only [reduceCtorEq, decide_false, Bool.false_and, Bool.false_eq_true, if_false]

/-- **What an operation does to the coalesced media**: it claims one, or sets outcomes by their owner. -/
theorem exec_cases (s : Store) (op : Op) :
    (∃ id tenantId channel hash windowMs now, op = .claimMediaCoalescing id tenantId channel hash windowMs now) ∨
      KeepsFailed s op (s.exec op) := by
  cases op with
  | claimMediaCoalescing id tenantId channel hash windowMs now => exact Or.inl ⟨_, _, _, _, _, _, rfl⟩
  | reopen now => exact Or.inr (keepsFailed_reopen now)
  | completeMediaCoalescing canonical completed now =>
    refine Or.inr ⟨_, settled_settle canonical _ now, fun k hk => ?_⟩
    cases completed with
    | false => exact ite_self _
    | true =>
      have hne : k ≠ canonical := by simpa [Store.revives] using hk
      exact if_neg hne
  | resumeIdempotentVoiceCaptures tenantId now =>
    refine Or.inr ⟨fun k x => if k ∈ s.deferredCaptures tenantId then .processing else x, ?_, fun k hk => ?_⟩
    · exact ((Settled.of_eq rfl).trans (settled_foldl (s.deferredCaptures tenantId) .processing now (s.updateJobs _ _ _))).trans
        (.of_eq rfl)
    · have hne : k ∉ s.deferredCaptures tenantId := by simpa [Store.revives] using hk
      exact if_neg hne
  | completeInterruptedMediaRecovery claim outcome now =>
    cases outcome with
    | failed error => exact Or.inr (.of_eq rfl)
    | sent sentMessageId intentId =>
      by_cases hkind : claim.kind = .forwardedReply
      · refine Or.inr ⟨fun k x => if k = claim.providerMessageId then .completed else x, ?_, fun k hk => ?_⟩
        · simp only [Store.exec, Store.completeInterruptedMediaRecovery, hkind, if_true]
          exact settled_update (fun k _ => decide (k = claim.providerMessageId)) .completed now (fun _ _ => rfl) rfl |>.congr
            fun k x => by simp only [decide_eq_true_eq]
        · have hne : k ≠ claim.providerMessageId := by simpa [Store.revives, hkind] using hk
          exact if_neg hne
      · refine Or.inr (.of_eq ?_)
        simp only [Store.exec, Store.completeInterruptedMediaRecovery, if_neg hkind]
        rfl
  | cancelLatestVoiceJob tenantId conversationKey now =>
    refine Or.inr ?_
    simp only [Store.exec, Store.cancelLatestVoiceJob]
    split
    · exact .of_eq rfl
    · exact .of_settle rfl rfl
  | queueVoiceFailureReply id replyText failure now =>
    refine Or.inr ?_
    simp only [Store.exec, Store.queueVoiceFailureReply]
    split
    · exact .of_eq rfl
    · split
      · exact .of_settle (coalescings_upsertRecovery (s := s.updateJobs _ _ _) _ _) rfl
      · exact .of_eq rfl
  | markVoiceRingOutcomeUnknown id now =>
    refine Or.inr ?_
    simp only [Store.exec, Store.markVoiceRingOutcomeUnknown]
    split
    · exact .of_settle (coalescings_upsertRecovery (s := s.updateJobs _ _ _) _ _) rfl
    · exact .of_eq rfl
  | deferIdempotentVoiceCapture id replyText now =>
    refine Or.inr ?_
    simp only [Store.exec, Store.deferIdempotentVoiceCapture]
    split
    · exact .of_eq rfl
    · split
      · exact .of_settle (coalescings_upsertRecovery (s := s.updateJobs _ _ _) _ _) rfl
      · exact .of_eq rfl
  | completeVoiceRingHandoff id replyText now =>
    refine Or.inr (.of_eq ?_)
    simp only [Store.exec, Store.completeVoiceRingHandoff]
    split
    · rfl
    · split
      · exact coalescings_upsertRecovery _ _
      · rfl
  | recordMessage m | createVoiceJob job =>
    refine Or.inr (.of_eq ?_)
    simp only [Store.exec, Store.recordMessage, Store.createVoiceJob]
    split <;> rfl
  | claimNextVoiceJob lastTenantId now =>
    refine Or.inr (.of_eq ?_)
    simp only [Store.exec, Store.claimNextVoiceJob]
    split
    · rfl
    · split <;> rfl
  | confirmLatestVoiceJob tenantId conversationKey now =>
    refine Or.inr (.of_eq ?_)
    simp only [Store.exec, Store.confirmLatestVoiceJob]
    split <;> rfl
  | claimVoiceRingHandoff id now =>
    refine Or.inr (.of_eq ?_)
    simp only [Store.exec, Store.claimVoiceRingHandoff]
    split <;> rfl
  | recordChannelForwarding id tenantId replyText now =>
    refine Or.inr (.of_eq ?_)
    simp only [Store.exec, Store.recordChannelForwarding]
    split <;> rfl
  | claimInterruptedMediaRecovery now =>
    refine Or.inr (.of_eq ?_)
    simp only [Store.exec, Store.claimInterruptedMediaRecovery]
    split <;> rfl
  | persistVoiceTranscript id transcription now | requeueInterruptedVoiceJob id now | writeIntents intents =>
    exact Or.inr (.of_eq rfl)

/-! ## Owners and duplicates -/

/-- One recording of a tenant on a channel. -/
def SameScope (a b : Coalescing) : Prop :=
  a.tenantId = b.tenantId ∧ a.channel = b.channel ∧ a.artifactSha256 = b.artifactSha256

/-- The second was claimed within its window behind the first. -/
def Close (a b : Coalescing) : Prop := a.createdAt ≤ b.createdAt ∧ b.createdAt - max 1 b.windowMs ≤ a.createdAt

/-- Owners own themselves, and a duplicate has an owner of the same recording, and its outcome. -/
structure Owned (s : Store) : Prop where
  owner : ∀ c ∈ s.coalescings.rows, c.role = .owner → c.canonicalProviderMessageId = c.providerMessageId
  duplicate : ∀ d ∈ s.coalescings.rows, d.role = .duplicate → ∃ c ∈ s.coalescings.rows,
    c.role = .owner ∧ c.providerMessageId = d.canonicalProviderMessageId ∧ SameScope c d ∧ c.outcome = d.outcome

/-- Of one recording at most one owner within a window is processing or completed. -/
def OneLiveOwner (s : Store) : Prop :=
  ∀ a ∈ s.coalescings.rows, ∀ b ∈ s.coalescings.rows, a.role = .owner → b.role = .owner → SameScope a b → Close a b →
    a.outcome ≠ .failed → b.outcome ≠ .failed → a = b

/-- Claims come in the order of their times. -/
def Timely (s : Store) : Op → Prop
  | .claimMediaCoalescing _ _ _ _ _ now => ∀ c ∈ s.coalescings.rows, c.createdAt ≤ now
  | _ => True

/-- An owner that the operation revives is alone within its window: no other one of the recording is alive there, or revived too. -/
def Alone (s : Store) (op : Op) : Prop :=
  ∀ a ∈ s.coalescings.rows, ∀ b ∈ s.coalescings.rows, a.role = .owner → b.role = .owner → SameScope a b → Close a b →
    a.outcome ≠ .failed ∨ s.revives op a.providerMessageId = true → b.outcome ≠ .failed ∨ s.revives op b.providerMessageId = true →
    a.outcome = .failed ∨ b.outcome = .failed → a = b

instance (s : Store) : DecidablePred (Alone s) := fun op => by
  unfold Alone SameScope Close
  infer_instance

instance (s : Store) : DecidablePred (Timely s) := fun op => by
  unfold Timely
  split <;> infer_instance

theorem scope_congr {a' b' : Coalescing} (ha : SameClaim a a') (hb : SameClaim b b') : SameScope a' b' ↔ SameScope a b := by
  simp only [SameScope, ha.tenantId, ha.channel, ha.artifactSha256, hb.tenantId, hb.channel, hb.artifactSha256]

theorem liveOwner_some {tenantId : Text} {channel : Channel} {hash : Text} {cutoff : Int}
    (h : s.liveOwner tenantId channel hash cutoff = some c) :
    c ∈ s.coalescings.rows ∧ c.role = .owner ∧ c.tenantId = tenantId ∧ c.channel = channel ∧ c.artifactSha256 = hash := by
  have hmem := List.mem_of_mem_head? h
  rw [List.mem_insertionSort, List.mem_filter] at hmem
  simp only [Bool.and_eq_true, decide_eq_true_eq] at hmem
  obtain ⟨hmem, ⟨⟨⟨⟨htenant, hchannel⟩, hhash⟩, hrole⟩, -⟩, -⟩ := hmem
  exact ⟨hmem, hrole, htenant, hchannel, hhash⟩

theorem liveOwner_none {tenantId : Text} {channel : Channel} {hash : Text} {cutoff : Int}
    (h : s.liveOwner tenantId channel hash cutoff = none) (hc : c ∈ s.coalescings.rows) (hrole : c.role = .owner)
    (hscope : c.tenantId = tenantId ∧ c.channel = channel ∧ c.artifactSha256 = hash) (hlive : c.outcome ≠ .failed) :
    c.createdAt < cutoff := by
  by_contra hlt
  have hmem : c ∈ (s.coalescings.rows.filter fun c => c.tenantId = tenantId && c.channel = channel &&
      c.artifactSha256 = hash && c.role = .owner && cutoff ≤ c.createdAt && c.outcome ≠ .failed).insertionSort fun a b =>
        a.createdAt < b.createdAt ∨ a.createdAt = b.createdAt ∧ a.providerMessageId ≤ b.providerMessageId := by
    rw [List.mem_insertionSort, List.mem_filter]
    simp only [Bool.and_eq_true, decide_eq_true_eq]
    exact ⟨hc, ⟨⟨⟨⟨hscope.1, hscope.2.1⟩, hscope.2.2⟩, hrole⟩, not_lt.1 hlt⟩, hlive⟩
  rw [Store.liveOwner, List.head?_eq_none_iff] at h
  rw [h] at hmem
  cases hmem

/-! ## What a claim adds -/

/-- **A claim**: a row for its message, an owner where none is alive in the window, and a duplicate of the one there. -/
theorem claim_cases (s : Store) (id tenantId : Text) (channel : Channel) (hash : Text) (windowMs now : Int) :
    s.claimMediaCoalescing id tenantId channel hash windowMs now = s ∨
      ∃ row : Coalescing, (s.claimMediaCoalescing id tenantId channel hash windowMs now).coalescings.rows =
          s.coalescings.rows ++ [row] ∧
        row.createdAt = now ∧ row.providerMessageId = id ∧ (∀ c ∈ s.coalescings.rows, c.providerMessageId ≠ id) ∧
        ((row.role = .owner ∧ row.canonicalProviderMessageId = id ∧
            ∀ c ∈ s.coalescings.rows, c.role = .owner → SameScope c row → c.outcome ≠ .failed →
              c.createdAt < now - max 1 row.windowMs) ∨
          (row.role = .duplicate ∧ ∃ c ∈ s.coalescings.rows, c.role = .owner ∧
            c.providerMessageId = row.canonicalProviderMessageId ∧ SameScope c row ∧ c.outcome = row.outcome)) := by
  simp only [Store.claimMediaCoalescing]
  split
  · exact Or.inl rfl
  · next coalescings hinsert =>
    obtain ⟨hfresh, hrows⟩ := Table.insert?_eq_some.1 hinsert
    refine Or.inr ⟨_, hrows, rfl, rfl, fun c hc => by simpa [Keyed.clash] using hfresh c hc, ?_⟩
    cases hlive : s.liveOwner tenantId channel hash (now - max 1 windowMs) with
    | none =>
      exact Or.inl ⟨rfl, rfl, fun c hc hrole hscope halive => liveOwner_none hlive hc hrole hscope halive⟩
    | some c =>
      obtain ⟨hmem, hrole, htenant, hchannel, hhash⟩ := liveOwner_some hlive
      exact Or.inr ⟨rfl, c, hmem, hrole, rfl, ⟨htenant, hchannel, hhash⟩, rfl⟩

/-! ## Steps -/

theorem Owned.settled {outcome : Text → OutcomeState → OutcomeState} (h : Owned s) (hs : Settled outcome s s') : Owned s' := by
  obtain ⟨f, hrows, hsame⟩ := hs
  constructor
  · intro c hc hrole
    rw [hrows] at hc
    obtain ⟨b, hb, rfl⟩ := List.mem_map.1 hc
    have hkeep := (hsame b).1
    rw [hkeep.canonical, hkeep.providerMessageId]
    exact h.owner b hb (hkeep.role.symm.trans hrole)
  · intro d' hd' hrole
    rw [hrows] at hd'
    obtain ⟨d, hd, rfl⟩ := List.mem_map.1 hd'
    have hkeep := (hsame d).1
    obtain ⟨c, hc, howner, hid, hscope, hout⟩ := h.duplicate d hd (hkeep.role.symm.trans hrole)
    have hkeep' := (hsame c).1
    refine ⟨f c, hrows ▸ List.mem_map_of_mem hc, hkeep'.role.trans howner, ?_, (scope_congr hkeep' hkeep).2 hscope, ?_⟩
    · rw [hkeep'.providerMessageId, hkeep.canonical, hid]
    · -- both are told by the owner's id
      rw [(hsame c).2, (hsame d).2, hout, ← hid, h.owner c hc howner]

theorem Owned.exec (h : Owned s) (op : Op) : Owned (s.exec op) := by
  rcases exec_cases s op with ⟨id, tenantId, channel, hash, windowMs, now, rfl⟩ | ⟨outcome, hs, -⟩
  · rcases claim_cases s id tenantId channel hash windowMs now with hsame | ⟨row, hrows, -, hid, -, hrow⟩
    · rw [Store.exec, hsame]
      exact h
    · constructor
      · intro c hc hrole
        rw [Store.exec, hrows, List.mem_append, List.mem_singleton] at hc
        rcases hc with hc | rfl
        · exact h.owner c hc hrole
        · rcases hrow with ⟨-, hcanonical, -⟩ | ⟨hduplicate, -⟩
          · rw [hcanonical, hid]
          · rw [hduplicate] at hrole
            cases hrole
      · intro d hd hrole
        simp only [Store.exec, hrows, List.mem_append, List.mem_singleton] at hd ⊢
        rcases hd with hd | rfl
        · obtain ⟨c, hc, hfacts⟩ := h.duplicate d hd hrole
          exact ⟨c, Or.inl hc, hfacts⟩
        · rcases hrow with ⟨howner, -⟩ | ⟨-, c, hc, hfacts⟩
          · rw [howner] at hrole
            cases hrole
          · exact ⟨c, Or.inl hc, hfacts⟩
  · exact h.settled hs

/-- Rows in the order of their claims, an owner claimed behind another live one of its recording only out of the window. -/
structure Spaced (s : Store) : Prop where
  ordered : s.coalescings.rows.Pairwise fun a b => a.createdAt ≤ b.createdAt
  apart : s.coalescings.rows.Pairwise fun a b => a.role = .owner → b.role = .owner → SameScope a b →
    a.outcome ≠ .failed → b.outcome ≠ .failed → a.createdAt < b.createdAt - max 1 b.windowMs

/-- What is alive behind an operation was alive before it, or is revived. -/
theorem live_before {outcome : Text → OutcomeState → OutcomeState} {f : Coalescing → Coalescing} (h : Owned s)
    (hsame : ∀ c, SameClaim c (f c) ∧ (f c).outcome = outcome c.canonicalProviderMessageId c.outcome)
    (hfailed : ∀ k, s.revives op k = false → outcome k .failed = .failed) (hc : c ∈ s.coalescings.rows)
    (hrole : c.role = .owner) (hlive : (f c).outcome ≠ .failed) :
    c.outcome ≠ .failed ∨ s.revives op c.providerMessageId = true := by
  by_contra hdead
  simp only [not_or, not_not, Bool.not_eq_true] at hdead
  rw [(hsame c).2, hdead.1, h.owner c hc hrole] at hlive
  exact hlive (hfailed _ hdead.2)

theorem Spaced.exec (h : Spaced s) (ho : Owned s) (htimely : Timely s op) (halone : Alone s op) : Spaced (s.exec op) := by
  rcases exec_cases s op with ⟨id, tenantId, channel, hash, windowMs, now, rfl⟩ | ⟨outcome, ⟨f, hrows, hsame⟩, hfailed⟩
  · rcases claim_cases s id tenantId channel hash windowMs now with hsame | ⟨row, hrows, hnow, -, -, hrow⟩
    · rw [Store.exec, hsame]
      exact h
    · rw [← hnow] at hrow
      constructor
      · rw [Store.exec, hrows, List.pairwise_append]
        refine ⟨h.ordered, List.pairwise_singleton _ _, fun a ha b hb => ?_⟩
        rw [List.mem_singleton.1 hb, hnow]
        exact htimely a ha
      · rw [Store.exec, hrows, List.pairwise_append]
        refine ⟨h.apart, List.pairwise_singleton _ _, fun a ha b hb hrole hrole' hscope hlive _ => ?_⟩
        rw [List.mem_singleton] at hb
        subst hb
        rcases hrow with ⟨-, -, hout⟩ | ⟨hduplicate, -⟩
        · exact hout a ha hrole hscope hlive
        · rw [hduplicate] at hrole'
          cases hrole'
  · constructor
    · rw [hrows, List.pairwise_map]
      exact h.ordered.imp fun {a b} hab => by rwa [(hsame a).1.createdAt, (hsame b).1.createdAt]
    · rw [hrows, List.pairwise_map]
      refine List.Pairwise.imp_of_mem ?_ (h.apart.and (h.ordered.and s.coalescings.unique))
      rintro a b ha hb ⟨hapart, hordered, hunique⟩ hrole hrole' hscope hlive hlive'
      have hkeep := (hsame a).1
      have hkeep' := (hsame b).1
      rw [hkeep.createdAt, hkeep'.createdAt, hkeep'.windowMs]
      rw [hkeep.role] at hrole
      rw [hkeep'.role] at hrole'
      rw [scope_congr hkeep hkeep'] at hscope
      have hbefore := live_before ho hsame hfailed ha hrole hlive
      have hbefore' := live_before ho hsame hfailed hb hrole' hlive'
      by_contra hclose
      by_cases hdead : a.outcome = .failed ∨ b.outcome = .failed
      · have heq := halone a ha b hb hrole hrole' hscope ⟨hordered, not_lt.1 hclose⟩ hbefore hbefore' hdead
        simp [heq, Keyed.clash] at hunique
      · rw [not_or] at hdead
        exact hclose (hapart hrole hrole' hscope hdead.1 hdead.2)

/-- Two rows of a list are one, or stand in one order or the other. -/
theorem rel_or_rel {R : Coalescing → Coalescing → Prop} {l : List Coalescing} (h : l.Pairwise R) (ha : a ∈ l) (hb : b ∈ l) :
    a = b ∨ R a b ∨ R b a := by
  induction l with
  | nil => cases ha
  | cons c l ih =>
    rw [List.pairwise_cons] at h
    rw [List.mem_cons] at ha hb
    rcases ha with rfl | ha
    · rcases hb with rfl | hb
      · exact Or.inl rfl
      · exact Or.inr (Or.inl (h.1 b hb))
    · rcases hb with rfl | hb
      · exact Or.inr (Or.inr (h.1 a ha))
      · exact ih h.2 ha hb

theorem Spaced.oneLiveOwner (h : Spaced s) : OneLiveOwner s := by
  intro a ha b hb hrole hrole' hscope hclose hlive hlive'
  obtain ⟨horder, hwindow⟩ := hclose
  rcases rel_or_rel (h.ordered.and h.apart) ha hb with heq | ⟨-, hapart⟩ | ⟨hordered, hapart⟩
  · exact heq
  · have hlt := hapart hrole hrole' hscope hlive hlive'
    omega
  · -- claimed at one time: then the other order is out of its window, too
    have hlt := hapart hrole' hrole ⟨hscope.1.symm, hscope.2.1.symm, hscope.2.2.symm⟩ hlive' hlive
    omega

/-! ## Duplicates stay what they are -/

/-- The message was claimed as a duplicate. -/
def IsDuplicate (s : Store) (id : Text) : Prop := ∃ d ∈ s.coalescings.rows, d.providerMessageId = id ∧ d.role = .duplicate

theorem IsDuplicate.exec (h : IsDuplicate s id) (op : Op) : IsDuplicate (s.exec op) id := by
  obtain ⟨d, hd, hid, hrole⟩ := h
  rcases exec_cases s op with ⟨id, tenantId, channel, hash, windowMs, now, rfl⟩ | ⟨outcome, ⟨f, hrows, hsame⟩, -⟩
  · rcases claim_cases s id tenantId channel hash windowMs now with hsame | ⟨row, hrows, -⟩
    · rw [Store.exec, hsame]
      exact ⟨d, hd, hid, hrole⟩
    · exact ⟨d, hrows ▸ List.mem_append_left _ hd, hid, hrole⟩
  · exact ⟨f d, hrows ▸ List.mem_map_of_mem hd, (hsame d).1.providerMessageId.trans hid, (hsame d).1.role.trans hrole⟩

/-- A duplicate is no owner: a message has one row. -/
theorem IsDuplicate.not_owner (h : IsDuplicate s id) (hc : c ∈ s.coalescings.rows) (hid : c.providerMessageId = id) :
    c.role ≠ .owner := by
  obtain ⟨d, hd, hid', hrole⟩ := h
  have heq : c = d := Table.eq_of_identifies (q := fun c => c.providerMessageId = id)
    (fun a b ha hb => by simp_all [Keyed.clash]) hc hd (by simpa using hid) (by simpa using hid')
  rw [heq, hrole]
  exact Role.noConfusion

/-! ## Runs -/

theorem owned_run (ops : List Op) (h : Owned s) : Owned (ops.foldl Store.exec s) := by
  induction ops generalizing s with
  | nil => exact h
  | cons op ops ih => exact ih (h.exec op)

theorem isDuplicate_run (ops : List Op) (h : IsDuplicate s id) : IsDuplicate (ops.foldl Store.exec s) id := by
  induction ops generalizing s with
  | nil => exact h
  | cons op ops ih => exact ih (h.exec op)

/-- **One live owner**: in every run a duplicate has an owner of its recording, and its outcome, and never becomes an owner;
and where no owner is revived beside another one, at most one within a window is alive. -/
theorem one_live_owner (ops : List Op) (htimely : Along Store.exec Timely ops {}) :
    Owned (ops.foldl Store.exec {}) ∧
      (∀ first second, ops = first ++ second → ∀ id, IsDuplicate (first.foldl Store.exec {}) id →
        ∀ c ∈ (ops.foldl Store.exec {}).coalescings.rows, c.providerMessageId = id → c.role ≠ .owner) ∧
      (Along Store.exec Alone ops {} → OneLiveOwner (ops.foldl Store.exec {})) := by
  have hempty : Owned {} := by constructor <;> exact fun c hc => by cases hc
  refine ⟨owned_run ops hempty, fun first second happend id hduplicate c hc hid => ?_, fun halone => ?_⟩
  · rw [happend, List.foldl_append] at hc
    exact (isDuplicate_run second hduplicate).not_owner hc hid
  · have hrun : Owned (ops.foldl Store.exec {}) ∧ Spaced (ops.foldl Store.exec {}) :=
      (htimely.both halone).invariant (Q := fun s => Owned s ∧ Spaced s)
        (fun s op hmeets h => ⟨h.1.exec op, h.2.exec h.1 hmeets.1 hmeets.2⟩) ⟨hempty, .nil, .nil⟩
    exact hrun.2.oneLiveOwner

instance (s : Store) : Decidable (OneLiveOwner s) := by
  unfold OneLiveOwner SameScope Close
  infer_instance

/-- A recording is handed off and deferred, and comes again under another message while the capture waits. -/
def resent (secondAt : Int) : List Op := [
  .claimMediaCoalescing "a".toList "t".toList .whatsapp "hash".toList 300 0,
  .createVoiceJob {
    providerMessageId := "a".toList, tenantId := "t".toList, conversationKey := "c".toList, artifactSha256 := "hash".toList
    state := .queued, createdAt := 0, updatedAt := 0 },
  .claimNextVoiceJob none 1,
  .persistVoiceTranscript "a".toList "text".toList 2,
  .claimVoiceRingHandoff "a".toList 3,
  .deferIdempotentVoiceCapture "a".toList "later".toList 4,
  .claimMediaCoalescing "b".toList "t".toList .whatsapp "hash".toList 300 secondAt,
  .resumeIdempotentVoiceCaptures "t".toList 1000]

/-- Out of the window, the capture that is resumed is alone. -/
theorem resent_later : OneLiveOwner ((resent 400).foldl Store.exec {}) :=
  (one_live_owner (resent 400) (by decide +kernel)).2.2 (by decide +kernel)

/-- Within the window, both recordings are alive. -/
theorem resent_soon : ¬ ∀ ops, Along Store.exec Timely ops {} → OneLiveOwner (ops.foldl Store.exec {}) :=
  fun h => absurd (h (resent 100) (by decide +kernel)) (by decide +kernel)

end Zenod.WhatsApp
