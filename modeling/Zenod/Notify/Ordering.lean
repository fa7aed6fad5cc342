/-
Coalescing and ordering over whole runs of the bus.

A call looks at the journal, but what is on its way to a recipient is not
there yet, and of a group it looks at the latest row alone. `Meets` says when
that does no harm; `notify_ordered` is what every run then keeps.
-/
import Mathlib
import Zenod.Notify.Bus

namespace Zenod.Notify

open Keyed Text

variable {windows : Windows} {s : State} {w : Config}

/-! ## What a run keeps -/

/-- The state in which a call's row is written. -/
def State.begun (s : State) (c : Call) : State :=
  { s with counter := nextCounter s.counter, clock := c.now, calls := s.calls ++ [c.event] }

def State.idOf (s : State) (c : Call) : Text := notificationId c.now (nextCounter s.counter)

/-- What reached somebody or is on its way. -/
def out (w : Config) : Multiset Sending := (w.state.delivered : Multiset Sending) + w.pending

/-- Two notifications of one key, one of them with an identity, are more than the window apart. -/
def Apart (windows : Windows) (a : NotificationEvent) (t : Int) (b : NotificationEvent) (u : Int) : Prop :=
  notificationDedupeKey a = notificationDedupeKey b → isCoalescible a = true ∨ isCoalescible b = true →
    windows.dedupeWindowMs < u - t

/-- Behind a state of a group comes a lower one behind the window only. -/
def NoStepBack (windows : Windows) (a : NotificationEvent) (t : Int) (b : NotificationEvent) (u : Int) : Prop :=
  ∀ group, groupOf a = some group → groupOf b = some group → 0 < eventStateRank b.eventType →
    eventStateRank b.eventType < eventStateRank a.eventType → windows.orderingWindowMs < u - t

def Coalesced (windows : Windows) (a b : Sending) : Prop := Apart windows a.event a.now b.event b.now

def Ordered (windows : Windows) (a b : Sending) : Prop := NoStepBack windows a.event a.now b.event b.now

/-- What the environment gives: a clock that does not run back, and the rows that the queries ask for. -/
def Legit (w : Config) : Move → Prop
  | .call c => w.state.clock ≤ c.now ∧
      IsLatest w.state.journal.rows (sentWithKey (notificationDedupeKey c.event)) c.byKey ∧
      ∀ group, groupOf c.event = some group → IsLatest w.state.journal.rows (sentInGroup group) c.byGroup
  | .resume _ _ => True

/-- The id that a call draws is no other notification's. -/
def FreshId (w : Config) (c : Call) : Prop :=
  (∀ r ∈ w.state.journal.rows, r.id ≠ w.state.idOf c) ∧ ∀ f ∈ w.pending, f.id ≠ w.state.idOf c

/-- Nothing that the call looks at stands against it. -/
def Passes (windows : Windows) (c : Call) : Prop :=
  trim (c.event.text.getD []) ≠ [] ∧ repeats windows c = none ∧
    ∀ prior, recent windows c = some prior → eventStateRank prior.eventType ≤ eventStateRank c.event.eventType

/-- What a call does not look at does not stand against it: a notification on its way, and for an event without identity
those of its key. -/
def Unseen (windows : Windows) (w : Config) (c : Call) : Prop :=
  (∀ g ∈ w.pending, Apart windows g.event g.now c.event c.now ∧ NoStepBack windows g.event g.now c.event c.now ∧
    NoStepBack windows c.event c.now g.event g.now) ∧
    (isCoalescible c.event = false → ∀ g ∈ w.state.delivered, Apart windows g.event g.now c.event c.now)

/-- If some row of the group in the window outranks the event, so do the latest ones. -/
def TopLatest (windows : Windows) (rows : List NotificationRecord) (c : Call) : Prop :=
  ∀ group, groupOf c.event = some group → ∀ y ∈ rows, sentInGroup group y = true →
    c.now - y.createdAt ≤ windows.orderingWindowMs → eventStateRank c.event.eventType < eventStateRank y.eventType →
    ∀ x ∈ rows, sentInGroup group x = true → (∀ z ∈ rows, sentInGroup group z = true → z.createdAt ≤ x.createdAt) →
      eventStateRank c.event.eventType < eventStateRank x.eventType

/-- **When a move does no harm.** -/
def Meets (windows : Windows) (w : Config) : Move → Prop
  | .call c => FreshId w c ∧ (Passes windows c → Unseen windows w c ∧ TopLatest windows w.state.journal.rows c)
  | .resume _ _ => True

section

instance (a : NotificationEvent) (t : Int) (b : NotificationEvent) (u : Int) : Decidable (Apart windows a t b u) := by
  unfold Apart
  infer_instance

instance (a : NotificationEvent) (t : Int) (b : NotificationEvent) (u : Int) : Decidable (NoStepBack windows a t b u) := by
  unfold NoStepBack
  infer_instance

instance (a b : Sending) : Decidable (Coalesced windows a b) := by
  unfold Coalesced
  infer_instance

instance (a b : Sending) : Decidable (Ordered windows a b) := by
  unfold Ordered
  infer_instance

instance : ∀ m, Decidable (Legit w m)
  | .call _ => by
    unfold Legit
    infer_instance
  | .resume _ _ => isTrue trivial

instance (c : Call) : Decidable (Passes windows c) := by
  unfold Passes
  infer_instance

instance (c : Call) : Decidable (Unseen windows w c) := by
  unfold Unseen
  infer_instance

instance (rows : List NotificationRecord) (c : Call) : Decidable (TopLatest windows rows c) := by
  unfold TopLatest
  infer_instance

instance : ∀ m, Decidable (Meets windows w m)
  | .call _ => by
    unfold Meets FreshId
    infer_instance
  | .resume _ _ => isTrue trivial

end

/-- The row that a call with this outcome leaves. -/
def IsRow (outcome : NotificationEvent × Text × NotificationStatus) (r : NotificationRecord) : Prop :=
  ∃ now text recipients prior, r = journalRow outcome.2.1 outcome.1 now text recipients outcome.2.2 prior

/-- Why an event may be suppressed. -/
def Justified (event : NotificationEvent) : Prop :=
  trim (event.text.getD []) = [] ∨ isCoalescible event = true ∨ (truthy event.targetIssue).isSome

/-- Each call that is not on its way has a row behind those of the start, and none threw. -/
structure Journaled (rows₀ : List NotificationRecord) (w : Config) : Prop where
  fresh : ∀ f ∈ w.pending, ∀ r ∈ w.state.journal.rows, r.id ≠ f.id
  ids : (w.pending.map Sending.id).Nodup
  thrown : w.state.thrown = 0
  rows : ∃ rows, w.state.journal.rows = rows₀ ++ rows ∧ List.Forall₂ IsRow w.state.returned rows
  calls : (w.state.returned.map Prod.fst : Multiset NotificationEvent) + w.pending.map Sending.event = w.state.calls
  justified : ∀ x ∈ w.state.returned, x.2.2 = .suppressed → Justified x.1

/-- The notifications that went out are in their places. -/
structure Spaced (windows : Windows) (w : Config) : Prop where
  sent : ∀ g ∈ w.state.delivered, ∃ recipients,
    journalRow g.id g.event g.now g.outText recipients .sent none ∈ w.state.journal.rows
  old : ∀ g ∈ out w, g.handed < w.state.handings ∧ g.now ≤ w.state.clock
  distinct : ((out w).map Sending.handed).Nodup
  handed : ∀ a ∈ out w, ∀ b ∈ out w, a.handed < b.handed → Coalesced windows a b ∧ Ordered windows a b
  waiting : ∀ f ∈ w.pending, ∀ g ∈ out w, f.handed < g.handed → Ordered windows g f
  order : w.state.delivered.Pairwise (Ordered windows)

/-! ## What a segment does -/

/-- **A call is journaled at once or handed to the sender**, where nothing that it looked at stands against it. -/
theorem notify_cases (windows : Windows) (c : Call) (s : State) :
    (∃ text prior, notify windows c s =
        ((s.begun c).record c.event (journalRow (s.idOf c) c.event c.now text [] .suppressed prior), none) ∧
      Justified c.event) ∨
    Passes windows c ∧ ∃ text, notify windows c s = ({ s.begun c with handings := s.handings + 1 },
      some { id := s.idOf c, event := c.event, now := c.now, outText := text, handed := s.handings }) := by
  unfold notify
  simp only []
  split
  next hblank => exact Or.inl ⟨[], none, rfl, Or.inl hblank⟩
  next hblank =>
    split
    next prior hprior =>
      refine Or.inl ⟨_, some prior.id, rfl, Or.inr (Or.inl ?_)⟩
      unfold repeats at hprior
      split at hprior
      next hco => exact hco
      next => cases hprior
    next hrepeats =>
      split
      next prior hprior =>
        refine Or.inl ⟨_, some prior.id, rfl, Or.inr (Or.inr ?_)⟩
        have hrecent := (Option.filter_eq_some_iff.1 hprior).1
        unfold recent at hrecent
        split at hrecent
        next hgroup => exact hgroup.1
        next => cases hrecent
      next hrank =>
        refine Or.inr ⟨⟨hblank, hrepeats, fun prior hprior => ?_⟩, _, rfl⟩
        rw [hprior] at hrank
        simpa using hrank

/-- A row of a new id is written, and the call returns. -/
theorem record_new {s : State} {event : NotificationEvent} {row : NotificationRecord}
    (hnew : ∀ r ∈ s.journal.rows, r.id ≠ row.id) :
    ∃ journal, journal.rows = s.journal.rows ++ [row] ∧
      s.record event row = { s with journal := journal, returned := s.returned ++ [(event, row.id, row.status)] } := by
  obtain ⟨journal, hjournal, hrows⟩ := @Table.insert?_isSome _ _ s.journal row fun r hr => beq_eq_false_iff_ne.2 (hnew r hr)
  refine ⟨journal, hrows, ?_⟩
  unfold State.record
  rw [hjournal]

/-- **A reply settles the notification**: handed over with success it is delivered; either way its row is written. -/
theorem settle_cases (f : Sending) (result : Option SendResult) (s : State) :
    (∃ recipients, settle f result s = (({ s with delivered := s.delivered ++ [f] } : State).record f.event
        (journalRow f.id f.event f.now f.outText recipients .sent none), none)) ∨
      ∃ recipients, settle f result s =
        (s.record f.event (journalRow f.id f.event f.now f.outText recipients .failed none), none) := by
  unfold settle
  simp only []
  split
  next => exact Or.inl ⟨_, rfl⟩
  next => exact Or.inr ⟨_, rfl⟩

/-! ## The journal -/

variable {rows₀ : List NotificationRecord}

/-- A call that returns with a row of a new id. -/
theorem journaled_record {pending : Multiset Sending} {event : NotificationEvent} {row : NotificationRecord}
    (hnew : ∀ r ∈ s.journal.rows, r.id ≠ row.id) (hrow : IsRow (event, row.id, row.status) row)
    (hfresh : ∀ f ∈ pending, f.id ≠ row.id ∧ ∀ r ∈ s.journal.rows, r.id ≠ f.id) (hids : (pending.map Sending.id).Nodup)
    (hthrown : s.thrown = 0) (hrows : ∃ rows, s.journal.rows = rows₀ ++ rows ∧ List.Forall₂ IsRow s.returned rows)
    (hcalls : (s.returned.map Prod.fst : Multiset NotificationEvent) + event ::ₘ pending.map Sending.event = s.calls)
    (hjustified : ∀ x ∈ s.returned, x.2.2 = .suppressed → Justified x.1)
    (hevent : row.status = .suppressed → Justified event) : Journaled rows₀ ⟨s.record event row, pending⟩ := by
  obtain ⟨journal, hjournal, hrecord⟩ := @record_new s event row hnew
  rw [hrecord]
  refine ⟨fun f hf r hr => ?_, hids, hthrown, ?_, ?_, fun x hx hstatus => ?_⟩
  · rw [show State.journal _ = journal from rfl, hjournal] at hr
    rcases List.mem_append.1 hr with hr | hr
    · exact (hfresh f hf).2 r hr
    · rw [List.mem_singleton.1 hr]
      exact fun heq => (hfresh f hf).1 heq.symm
  · obtain ⟨rows, hrows, hall⟩ := hrows
    refine ⟨rows ++ [row], ?_, List.rel_append hall (List.Forall₂.cons hrow List.Forall₂.nil)⟩
    rw [show State.journal _ = journal from rfl, hjournal, hrows, List.append_assoc]
  · show ((s.returned ++ [(event, row.id, row.status)]).map Prod.fst : Multiset NotificationEvent) +
      pending.map Sending.event = s.calls
    rw [← hcalls, List.map_append, ← Multiset.coe_add, add_assoc]
    rfl
  · rcases List.mem_append.1 hx with hx | hx
    · exact hjustified x hx hstatus
    · rw [List.mem_singleton.1 hx] at hstatus ⊢
      exact hevent hstatus

theorem journaled_call {c : Call} (h : Journaled rows₀ w) (hfresh : FreshId w c) :
    Journaled rows₀ (Interleaving.after w.pending (notify windows c w.state)) := by
  rcases notify_cases windows c w.state with ⟨text, prior, heq, hjustified⟩ | ⟨-, text, heq⟩
  · rw [heq, Interleaving.after_none]
    refine journaled_record hfresh.1 ⟨_, _, _, _, rfl⟩ (fun f hf => ⟨hfresh.2 f hf, h.fresh f hf⟩) h.ids h.thrown h.rows ?_
      h.justified fun _ => hjustified
    show _ = ((w.state.calls ++ [c.event] : List NotificationEvent) : Multiset NotificationEvent)
    rw [← Multiset.coe_add, ← h.calls, add_assoc, Multiset.coe_singleton, add_comm (w.pending.map _), Multiset.singleton_add]
    rfl
  · rw [heq, Interleaving.after_some]
    refine ⟨fun f hf r hr => ?_, ?_, h.thrown, h.rows, ?_, h.justified⟩
    · rcases Multiset.mem_cons.1 hf with rfl | hf
      · exact hfresh.1 r hr
      · exact h.fresh f hf r hr
    · rw [Multiset.map_cons, Multiset.nodup_cons]
      refine ⟨fun hmem => ?_, h.ids⟩
      obtain ⟨f, hf, hid⟩ := Multiset.mem_map.1 hmem
      exact hfresh.2 f hf hid
    · show _ = ((w.state.calls ++ [c.event] : List NotificationEvent) : Multiset NotificationEvent)
      rw [← Multiset.coe_add, ← h.calls, Multiset.map_cons, Multiset.add_cons, Multiset.coe_singleton]
      exact (Multiset.singleton_add _ _).symm.trans (add_comm _ _)

theorem journaled_settle {f : Sending} {fs : Multiset Sending} {result : Option SendResult} (h : Journaled rows₀ w)
    (hpending : w.pending = f ::ₘ fs) : Journaled rows₀ (Interleaving.after fs (settle f result w.state)) := by
  have hids := h.ids
  rw [hpending, Multiset.map_cons, Multiset.nodup_cons] at hids
  have hmem : f ∈ w.pending := hpending ▸ Multiset.mem_cons_self f fs
  have hothers : ∀ g ∈ fs, g.id ≠ f.id ∧ ∀ r ∈ w.state.journal.rows, r.id ≠ g.id := fun g hg =>
    ⟨fun heq => hids.1 (heq ▸ Multiset.mem_map_of_mem Sending.id hg),
      h.fresh g (hpending ▸ Multiset.mem_cons_of_mem hg)⟩
  have hcalls := h.calls
  rw [hpending, Multiset.map_cons] at hcalls
  rcases settle_cases f result w.state with ⟨recipients, heq⟩ | ⟨recipients, heq⟩
  · rw [heq, Interleaving.after_none]
    exact journaled_record (h.fresh f hmem) ⟨_, _, _, _, rfl⟩ hothers hids.2 h.thrown h.rows hcalls h.justified
      fun hstatus => nomatch hstatus
  · rw [heq, Interleaving.after_none]
    exact journaled_record (h.fresh f hmem) ⟨_, _, _, _, rfl⟩ hothers hids.2 h.thrown h.rows hcalls h.justified
      fun hstatus => nomatch hstatus

/-! ## What went out -/

theorem truthy_eq_some {t : Option Text} {x : Text} (h : truthy t = some x) : t = some x :=
  (Option.filter_eq_some_iff.1 h).1

theorem sentWithKey_row (f : Sending) (recipients : List Text) :
    sentWithKey (notificationDedupeKey f.event) (journalRow f.id f.event f.now f.outText recipients .sent none) = true := by
  simp [sentWithKey, journalRow]

theorem sentInGroup_row {f : Sending} {group : Text × Text} (hgroup : groupOf f.event = some group) (recipients : List Text) :
    sentInGroup group (journalRow f.id f.event f.now f.outText recipients .sent none) = true := by
  obtain ⟨target, htarget, rfl⟩ := Option.map_eq_some_iff.1 hgroup
  simp [sentInGroup, journalRow, truthy_eq_some htarget]

/-- What the queries answer keeps a call in its place behind what is in the journal. -/
theorem delivered_apart {c : Call} (h : Spaced windows w) (hlegit : Legit w (.call c)) (hpasses : Passes windows c)
    (hunseen : Unseen windows w c) (htop : TopLatest windows w.state.journal.rows c) {g : Sending}
    (hg : g ∈ w.state.delivered) :
    Apart windows g.event g.now c.event c.now ∧ NoStepBack windows g.event g.now c.event c.now := by
  obtain ⟨-, hbyKey, hbyGroup⟩ := hlegit
  obtain ⟨-, hrepeats, hrecent⟩ := hpasses
  obtain ⟨recipients, hrow⟩ := h.sent g hg
  refine ⟨fun hkey hco => ?_, fun group hgroup hgroup' hpos hrank => ?_⟩
  · cases hcc : isCoalescible c.event with
    | false => exact hunseen.2 hcc g hg hkey hco
    | true =>
      have hsent := sentWithKey_row g recipients
      rw [hkey] at hsent
      cases hanswer : c.byKey with
      | none =>
        rw [hbyKey.1 hanswer _ hrow] at hsent
        cases hsent
      | some prior =>
        have hlatest : g.now ≤ prior.createdAt := (hbyKey.2 prior hanswer).2.2 _ hrow hsent
        unfold repeats at hrepeats
        rw [if_pos hcc, hanswer] at hrepeats
        have hwindow : ¬c.now - prior.createdAt ≤ windows.dedupeWindowMs := by simpa using hrepeats
        omega
  · have hsent := sentInGroup_row hgroup recipients
    by_contra hnear
    have hnear : c.now - g.now ≤ windows.orderingWindowMs := not_lt.1 hnear
    cases hanswer : c.byGroup with
    | none =>
      rw [(hbyGroup group hgroup').1 hanswer _ hrow] at hsent
      cases hsent
    | some prior =>
      obtain ⟨hmem, hprior, hlatest⟩ := (hbyGroup group hgroup').2 prior hanswer
      have hlate : g.now ≤ prior.createdAt := hlatest _ hrow hsent
      have hhigher := htop group hgroup' _ hrow hsent hnear hrank prior hmem hprior hlatest
      have hissue : (truthy c.event.targetIssue).isSome := by
        obtain ⟨target, htarget, -⟩ := Option.map_eq_some_iff.1 hgroup'
        rw [htarget]
        rfl
      have hrecent := hrecent prior (by
        unfold recent
        rw [if_pos ⟨hissue, hpos⟩, hanswer]
        have hwindow : c.now - prior.createdAt ≤ windows.orderingWindowMs := by omega
        simpa using hwindow)
      omega

theorem spaced_call {c : Call} (h : Spaced windows w) (hlegit : Legit w (.call c)) (hmeets : Meets windows w (.call c)) :
    Spaced windows (Interleaving.after w.pending (notify windows c w.state)) := by
  obtain ⟨hfresh, hmeets⟩ := hmeets
  rcases notify_cases windows c w.state with ⟨text, prior, heq, -⟩ | ⟨hpasses, text, heq⟩
  · obtain ⟨journal, hjournal, hrecord⟩ := @record_new (w.state.begun c) c.event
      (journalRow (w.state.idOf c) c.event c.now text [] .suppressed prior) hfresh.1
    rw [heq, Interleaving.after_none, hrecord]
    refine ⟨fun g hg => ?_, fun g hg => ?_, h.distinct, h.handed, h.waiting, h.order⟩
    · obtain ⟨recipients, hrow⟩ := h.sent g hg
      refine ⟨recipients, ?_⟩
      show _ ∈ journal.rows
      rw [hjournal]
      exact List.mem_append_left _ hrow
    · obtain ⟨hhanded, hclock⟩ := h.old g hg
      exact ⟨hhanded, le_trans hclock hlegit.1⟩
  · obtain ⟨hunseen, htop⟩ := hmeets hpasses
    rw [heq, Interleaving.after_some]
    generalize hn : ({ id := w.state.idOf c, event := c.event, now := c.now, outText := text, handed := w.state.handings } :
      Sending) = n
    have hevent : n.event = c.event := hn ▸ rfl
    have hnow : n.now = c.now := hn ▸ rfl
    have hhanded : n.handed = w.state.handings := hn ▸ rfl
    have hout : out (⟨{ w.state.begun c with handings := w.state.handings + 1 }, n ::ₘ w.pending⟩ : Config) = n ::ₘ out w :=
      Multiset.add_cons n _ _
    have hbehind : ∀ g ∈ out w, Coalesced windows g n ∧ Ordered windows g n := fun g hg => by
      unfold Coalesced Ordered
      rw [hevent, hnow]
      rcases Multiset.mem_add.1 hg with hg | hg
      · exact delivered_apart h hlegit hpasses hunseen htop (Multiset.mem_coe.1 hg)
      · exact ⟨(hunseen.1 g hg).1, (hunseen.1 g hg).2.1⟩
    refine ⟨h.sent, fun g hg => ?_, ?_, fun a ha b hb hlt => ?_, fun f hf g hg hlt => ?_, h.order⟩
    · show g.handed < w.state.handings + 1 ∧ g.now ≤ c.now
      rw [hout] at hg
      rcases Multiset.mem_cons.1 hg with rfl | hg
      · exact ⟨by omega, le_of_eq hnow⟩
      · have hold := h.old g hg
        exact ⟨by omega, le_trans hold.2 hlegit.1⟩
    · rw [hout, Multiset.map_cons, Multiset.nodup_cons]
      refine ⟨fun hmem => ?_, h.distinct⟩
      obtain ⟨g, hg, heq⟩ := Multiset.mem_map.1 hmem
      have hold := h.old g hg
      omega
    · rw [hout] at ha hb
      rcases Multiset.mem_cons.1 hb with hbn | hb
      · rcases Multiset.mem_cons.1 ha with han | ha
        · rw [han, hbn] at hlt
          omega
        · rw [hbn]
          exact hbehind a ha
      · rcases Multiset.mem_cons.1 ha with han | ha
        · rw [han] at hlt
          have hold := h.old b hb
          omega
        · exact h.handed a ha b hb hlt
    · rw [hout] at hg
      rcases Multiset.mem_cons.1 hg with hgn | hg
      · rcases Multiset.mem_cons.1 hf with hfn | hf
        · rw [hfn, hgn] at hlt
          omega
        · unfold Ordered
          rw [hgn, hevent, hnow]
          exact (hunseen.1 f hf).2.2
      · rcases Multiset.mem_cons.1 hf with hfn | hf
        · rw [hfn] at hlt
          have hold := h.old g hg
          omega
        · exact h.waiting f hf g hg hlt

theorem spaced_settle {f : Sending} {fs : Multiset Sending} {result : Option SendResult} (h : Spaced windows w)
    (hnew : ∀ r ∈ w.state.journal.rows, r.id ≠ f.id) (hpending : w.pending = f ::ₘ fs) :
    Spaced windows (Interleaving.after fs (settle f result w.state)) := by
  have hout : out w = f ::ₘ ((w.state.delivered : Multiset Sending) + fs) := by
    unfold out
    rw [hpending, Multiset.add_cons]
  have hdistinct := h.distinct
  rw [hout, Multiset.map_cons, Multiset.nodup_cons] at hdistinct
  rcases settle_cases f result w.state with ⟨recipients, heq⟩ | ⟨recipients, heq⟩
  · obtain ⟨journal, hjournal, hrecord⟩ := @record_new ({ w.state with delivered := w.state.delivered ++ [f] } : State) f.event
      (journalRow f.id f.event f.now f.outText recipients .sent none) hnew
    rw [heq, Interleaving.after_none, hrecord]
    generalize hw' : (⟨_, fs⟩ : Config) = w'
    have hdelivered : w'.state.delivered = w.state.delivered ++ [f] := hw' ▸ rfl
    have hrows : w'.state.journal.rows = w.state.journal.rows ++
        [journalRow f.id f.event f.now f.outText recipients .sent none] := by
      rw [← hw']
      exact hjournal
    have hout' : out w' = out w := by
      rw [hout]
      show (w'.state.delivered : Multiset Sending) + w'.pending = _
      rw [hdelivered, ← Multiset.coe_add, Multiset.coe_singleton, add_assoc, Multiset.singleton_add, Multiset.add_cons]
      subst hw'
      rfl
    refine ⟨fun g hg => ?_, fun g hg => ?_, ?_, ?_, fun g hg a ha hlt => ?_, ?_⟩
    · rw [hrows]
      rw [hdelivered] at hg
      rcases List.mem_append.1 hg with hg | hg
      · obtain ⟨recipients', hrow⟩ := h.sent g hg
        exact ⟨recipients', List.mem_append_left _ hrow⟩
      · rw [List.mem_singleton.1 hg]
        exact ⟨recipients, List.mem_append_right _ (List.mem_singleton_self _)⟩
    · rw [hout'] at hg
      subst hw'
      exact h.old g hg
    · rw [hout']
      exact h.distinct
    · rw [hout']
      exact h.handed
    · rw [hout'] at ha
      have hg' : g ∈ w.pending := by
        rw [hpending]
        subst hw'
        exact Multiset.mem_cons_of_mem hg
      exact h.waiting g hg' a ha hlt
    · rw [hdelivered]
      refine List.pairwise_append.2 ⟨h.order, List.pairwise_singleton _ _, fun g hg a ha => ?_⟩
      rw [List.mem_singleton.1 ha]
      have hg' : g ∈ (w.state.delivered : Multiset Sending) + fs := Multiset.mem_add.2 (Or.inl (Multiset.mem_coe.2 hg))
      have hmem : g ∈ out w := hout ▸ Multiset.mem_cons_of_mem hg'
      have hf : f ∈ out w := hout ▸ Multiset.mem_cons_self _ _
      rcases Nat.lt_trichotomy g.handed f.handed with hlt | heq | hgt
      · exact (h.handed g hmem f hf hlt).2
      · exact absurd (Multiset.mem_map.2 ⟨g, hg', heq⟩) hdistinct.1
      · exact h.waiting f (hpending ▸ Multiset.mem_cons_self _ _) g hmem hgt
  · obtain ⟨journal, hjournal, hrecord⟩ := @record_new w.state f.event
      (journalRow f.id f.event f.now f.outText recipients .failed none) hnew
    rw [heq, Interleaving.after_none, hrecord]
    generalize hw' : (⟨_, fs⟩ : Config) = w'
    have hdelivered : w'.state.delivered = w.state.delivered := hw' ▸ rfl
    have hrows : w'.state.journal.rows = w.state.journal.rows ++
        [journalRow f.id f.event f.now f.outText recipients .failed none] := by
      rw [← hw']
      exact hjournal
    have hout' : out w' = (w.state.delivered : Multiset Sending) + fs := hw' ▸ rfl
    have hsub : ∀ g ∈ out w', g ∈ out w := fun g hg => hout ▸ Multiset.mem_cons_of_mem (hout' ▸ hg)
    refine ⟨fun g hg => ?_, fun g hg => ?_, ?_, fun a ha b hb => h.handed a (hsub a ha) b (hsub b hb),
      fun g hg a ha => ?_, hdelivered ▸ h.order⟩
    · obtain ⟨recipients', hrow⟩ := h.sent g (hdelivered ▸ hg)
      refine ⟨recipients', ?_⟩
      rw [hrows]
      exact List.mem_append_left _ hrow
    · have hold := h.old g (hsub g hg)
      subst hw'
      exact hold
    · rw [hout']
      exact hdistinct.2
    · refine h.waiting g ?_ a (hsub a ha)
      rw [hpending]
      subst hw'
      exact Multiset.mem_cons_of_mem hg

/-! ## Runs -/

/-- The bus over any journal, before its first call. -/
structure Starts (s : State) : Prop where
  calls : s.calls = []
  returned : s.returned = []
  thrown : s.thrown = 0
  delivered : s.delivered = []

/-- The coalescing and the order of what was delivered, and a row for each call. -/
structure Kept (windows : Windows) (s : State) (w : Config) : Prop where
  handed : (w.state.delivered.map Sending.handed).Nodup
  coalesced : ∀ a ∈ w.state.delivered, ∀ b ∈ w.state.delivered, a.handed < b.handed → Coalesced windows a b
  ordered : ∀ a ∈ w.state.delivered, ∀ b ∈ w.state.delivered, a.handed < b.handed → Ordered windows a b
  settled : w.state.delivered.Pairwise (Ordered windows)
  rows : ∃ rows, w.state.journal.rows = s.journal.rows ++ rows ∧ List.Forall₂ IsRow w.state.returned rows
  calls : (w.state.returned.map Prod.fst : Multiset NotificationEvent) + w.pending.map Sending.event = w.state.calls
  thrown : w.state.thrown = 0
  justified : ∀ x ∈ w.state.returned, x.2.2 = .suppressed → Justified x.1

theorem kept_step {m : Move} (hmove : Legit w m ∧ Meets windows w m) (h : Journaled rows₀ w ∧ Spaced windows w) :
    Journaled rows₀ ((bus windows).step m w) ∧ Spaced windows ((bus windows).step m w) := by
  obtain ⟨hjournaled, hspaced⟩ := h
  rcases Interleaving.step_cases m w with ⟨c, rfl, heq⟩ | ⟨f, result, fs, rfl, hpending, heq⟩ | heq
  · rw [heq]
    exact ⟨journaled_call hjournaled hmove.2.1, spaced_call hspaced hmove.1 hmove.2⟩
  · rw [heq]
    have hmem : f ∈ w.pending := hpending ▸ Multiset.mem_cons_self f fs
    exact ⟨journaled_settle hjournaled hpending, spaced_settle hspaced (hjournaled.fresh f hmem) hpending⟩
  · rw [heq]
    exact ⟨hjournaled, hspaced⟩

/-- **Coalescing and ordering hold over every run whose moves do no harm.** -/
theorem notify_ordered {s : State} (hstart : Starts s) {moves : List Move}
    (hmoves : (bus windows).Along (fun w m => Legit w m ∧ Meets windows w m) moves ⟨s, 0⟩) :
    Kept windows s ((bus windows).run moves ⟨s, 0⟩) := by
  have hnothing : ∀ g, g ∉ out ⟨s, 0⟩ := fun g hg => by
    simp [out, hstart.delivered] at hg
  have hjournaled : Journaled s.journal.rows ⟨s, 0⟩ := by
    refine ⟨fun f hf => absurd hf (Multiset.notMem_zero f), Multiset.nodup_zero, hstart.thrown, ⟨[], ?_, ?_⟩, ?_, ?_⟩
    · rw [List.append_nil]
    · rw [hstart.returned]
      exact List.Forall₂.nil
    · simp [hstart.returned, hstart.calls]
    · simp [hstart.returned]
  have hspaced : Spaced windows ⟨s, 0⟩ := by
    refine ⟨?_, fun g hg => absurd hg (hnothing g), ?_, fun a ha => absurd ha (hnothing a),
      fun f hf => absurd hf (Multiset.notMem_zero f), ?_⟩
    · simp [hstart.delivered]
    · simp [out, hstart.delivered]
    · simp [hstart.delivered]
  obtain ⟨hjournaled, hspaced⟩ := Interleaving.run_invariant
    (Q := fun w => Journaled s.journal.rows w ∧ Spaced windows w) (fun _ _ hmove h => kept_step hmove h) hmoves
    ⟨hjournaled, hspaced⟩
  have hmem : ∀ {w : Config}, ∀ g ∈ w.state.delivered, g ∈ out w := fun g hg =>
    Multiset.mem_add.2 (Or.inl (Multiset.mem_coe.2 hg))
  refine ⟨?_, fun a ha b hb hlt => (hspaced.handed a (hmem a ha) b (hmem b hb) hlt).1,
    fun a ha b hb hlt => (hspaced.handed a (hmem a ha) b (hmem b hb) hlt).2, hspaced.order, hjournaled.rows,
    hjournaled.calls, hjournaled.thrown, hjournaled.justified⟩
  have hdistinct := hspaced.distinct
  unfold out at hdistinct
  rw [Multiset.map_add, Multiset.nodup_add] at hdistinct
  exact Multiset.coe_nodup.1 hdistinct.1

/-! ## Runs that harm -/

/-- A bus with an empty journal. -/
def emptyBus : State where
  journal := Table.empty
  counter := 0
  clock := 0

/-- A message of a group. -/
def groupEvent (eventType : String) : NotificationEvent where
  eventType := eventType.toList
  text := some "m".toList
  targetIssue := some "z#1".toList
  runId := some "r".toList

def sendingOf (eventType : String) (now : Int) (counter handed : Nat) : Sending where
  id := notificationId now counter
  event := groupEvent eventType
  now := now
  outText := "m".toList
  handed := handed

def sentRow (f : Sending) : NotificationRecord := journalRow f.id f.event f.now f.outText [] .sent none

def delivery : Option SendResult := some { sent := 1, recipients := [] }

def callOf (eventType : String) (now : Int) (byKey byGroup : Option Sending) : Move :=
  .call { event := groupEvent eventType, now := now, byKey := byKey.map sentRow, byGroup := byGroup.map sentRow }

/-- A message and its repetition, one behind the other. -/
def repeatedMoves : List Move :=
  let first := sendingOf "run.start" 0 1 0
  [callOf "run.start" 0 none none, .resume first delivery, callOf "run.start" 1 (some first) (some first)]

/-- Two calls with one key, the second before the first is sent. -/
def overlappingMoves : List Move :=
  [callOf "run.start" 0 none none, callOf "run.start" 1 none none, .resume (sendingOf "run.start" 0 1 0) delivery,
    .resume (sendingOf "run.start" 1 2 1) delivery]

/-- A run is over; then a message without a rank, and then it is blocked. -/
def unrankedMoves : List Move :=
  let terminal := sendingOf "run.terminal" 0 1 0
  let unranked := sendingOf "run.note" 1 2 1
  [callOf "run.terminal" 0 none none, .resume terminal delivery, callOf "run.note" 1 none (some terminal),
    .resume unranked delivery, callOf "run.blocked" 2 none (some unranked),
    .resume (sendingOf "run.blocked" 2 3 2) delivery]

/-- **A run without an overlap**, of a message and its repetition. -/
theorem repeated_ordered : Kept {} emptyBus ((bus {}).run repeatedMoves ⟨emptyBus, 0⟩) :=
  notify_ordered ⟨rfl, rfl, rfl, rfl⟩ (by decide +kernel)

/-- **Overlapping calls are both sent, and a message without a rank lets a run step back.** -/
theorem notify_out_of_order :
    (∃ moves, (bus {}).Along Legit moves ⟨emptyBus, 0⟩ ∧ ∃ a ∈ ((bus {}).run moves ⟨emptyBus, 0⟩).state.delivered,
      ∃ b ∈ ((bus {}).run moves ⟨emptyBus, 0⟩).state.delivered, a.handed < b.handed ∧ ¬Coalesced {} a b) ∧
    ∃ moves, (bus {}).Along Legit moves ⟨emptyBus, 0⟩ ∧ ∃ a ∈ ((bus {}).run moves ⟨emptyBus, 0⟩).state.delivered,
      ∃ b ∈ ((bus {}).run moves ⟨emptyBus, 0⟩).state.delivered, a.handed < b.handed ∧ ¬Ordered {} a b := by
  refine ⟨⟨overlappingMoves, by decide +kernel, sendingOf "run.start" 0 1 0, ?_, sendingOf "run.start" 1 2 1, ?_, ?_⟩,
    unrankedMoves, by decide +kernel, sendingOf "run.terminal" 0 1 0, ?_, sendingOf "run.blocked" 2 3 2, ?_, ?_⟩
  all_goals decide +kernel

end Zenod.Notify
