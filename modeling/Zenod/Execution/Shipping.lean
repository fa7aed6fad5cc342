/-
What becomes of a shipped execution and of one that is failed.

`settled_runs`: in a run whose `fail` calls and shipped outcomes find their
tickets where they may be moved, shipped tickets end done and failed ones
failed, and both are reported. A ticket that was approved before a restart is
never shipped.
-/
import Zenod.Execution.Capacity

namespace Zenod.Execution

open Keyed Text Queue Interleaving

variable {q : Queue} {t t' : ExecutionTicket} {id url : Text} {concurrency : Nat} {m : QueueMove} {r : Segment}
  {w : Config Queue Frame}

/-- `ship` resolved: the ticket is done with the URL, and that was reported. -/
def ShippedDone (q : Queue) : Prop :=
  ∀ id url, .shipped id url ∈ q.log → ∃ t, q.ticket? id = some t ∧ t.state = .done ∧ t.evidenceUrl = some url ∧
    .reported { executionId := id, state := .done, evidenceUrl := some url } ∈ q.log

/-- `fail` was called on a live ticket: it is failed, and that was reported. -/
def FailedReported (q : Queue) : Prop :=
  ∀ id, .failing id ∈ q.log → ∃ t, q.ticket? id = some t ∧ t.state = .failed ∧
    ∃ note, .reported { executionId := id, state := .failed, note := note } ∈ q.log

/-- A ticket that is approved at boot can be shipped, and done or failed. -/
def Shippable (concurrency : Nat) (q : Queue) : Prop :=
  ∀ id t, q.ticket? id = some t → t.state = .approved → ∃ moves,
    let q' := ((calls concurrency).run moves ⟨q, 0⟩).state
    .shipping id ∈ q'.log ∧ ∃ t', q'.ticket? id = some t' ∧ (t'.state = .done ∨ t'.state = .failed)

/-- The frame of a ticket that has ended and is not reported yet. -/
def Frame.ends : Frame → Bool
  | .complete _ _ => true
  | .fail _ _ _ => true
  | _ => false

/-- The moves that take shipped and failed tickets to their end. -/
structure Orderly (w : Config Queue Frame) (m : QueueMove) : Prop where
  /-- No `fail` finds its ticket queued. -/
  unqueued : ∀ id t, fails m = some id → w.state.ticket? id = some t → t.state ≠ .queued
  /-- A ticket is still approved when its shipment resolves. -/
  approved : ∀ id url now t, m = .resume (.ship id) ⟨.ok url, now⟩ → w.state.ticket? id = some t → t.state = .approved
  /-- A ticket that has ended is persisted. -/
  persisted : ∀ f now message, m = .resume f ⟨.error message, now⟩ → f.ends = false

/-! ## Segments -/

theorem mem_record {q : Queue} {e e' : Event} : e ∈ (q.record e').log ↔ e ∈ q.log ∨ e = e' := by
  rw [record_log, List.mem_append, List.mem_singleton]

/-- Nothing is taken out of the log. -/
theorem Effect.log_mono (h : Effect concurrency m q r) {e : Event} (he : e ∈ q.log) : e ∈ r.1.log := by
  cases h with
  | idle => exact he
  | launched => exact mem_record.2 (Or.inl he)
  | reported => exact mem_record.2 (Or.inl he)
  | shipping => exact mem_record.2 (Or.inl he)
  | annotated => exact he
  | enqueued => exact he
  | entered => exact mem_record.2 (Or.inl he)
  | failed => exact mem_record.2 (Or.inl (mem_record.2 (Or.inl he)))
  | refused => exact mem_record.2 (Or.inl he)
  | completed => exact mem_record.2 (Or.inl (mem_record.2 (Or.inl he)))
  | late => exact mem_record.2 (Or.inl he)

/-- A ticket that is put keeps what a ticket that has ended shows. -/
theorem put_ended (ht : q.ticket? t.executionId = some t) (hid : t'.executionId = t.executionId)
    (hkeeps : t.state = .done ∨ t.state = .failed → t'.state = t.state ∧ t'.evidenceUrl = t.evidenceUrl)
    {u : ExecutionTicket} (hu : q.ticket? id = some u) (hended : u.state = .done ∨ u.state = .failed) :
    ∃ u', (q.put t').ticket? id = some u' ∧ u'.state = u.state ∧ u'.evidenceUrl = u.evidenceUrl := by
  by_cases hsame : id = t.executionId
  · subst hsame
    rw [ht] at hu
    obtain rfl := Option.some.inj hu
    exact ⟨t', ticket?_put_self ht hid, hkeeps hended⟩
  · exact ⟨u, by rw [ticket?_put_of_ne (by rwa [hid])]; exact hu, rfl, rfl⟩

/-- **A ticket that has ended stays as it is.** -/
theorem Effect.ended (h : Effect concurrency m w.state r) (horderly : Orderly w m) {u : ExecutionTicket}
    (hu : w.state.ticket? id = some u) (hended : u.state = .done ∨ u.state = .failed) :
    ∃ u', r.1.ticket? id = some u' ∧ u'.state = u.state ∧ u'.evidenceUrl = u.evidenceUrl := by
  have hlive : ∀ {t : ExecutionTicket} {state : ExecState}, Legal t state → ¬(t.state = .done ∨ t.state = .failed) := by
    intro t state hlegal hstate
    rcases hstate with hdone | hfailed
    · exact hlegal.not_terminal.1 hdone
    · exact hlegal.not_terminal.2 hfailed
  cases h with
  | idle => exact ⟨u, hu, rfl, rfl⟩
  | launched => exact ⟨u, hu, rfl, rfl⟩
  | reported => exact ⟨u, hu, rfl, rfl⟩
  | shipping => exact ⟨u, hu, rfl, rfl⟩
  | annotated t t' f hf ht hid hstate hurl => exact put_ended ht hid (fun _ => ⟨hstate, hurl⟩) hu hended
  | enqueued t tickets hinsert hstate =>
    refine ⟨u, ?_, rfl, rfl⟩
    show tickets.rows.find? _ = _
    rw [(Table.insert?_eq_some.1 hinsert).2, List.find?_append, show w.state.tickets.rows.find? _ = _ from hu, Option.some_or]
  | entered t t' f ht hid hlegal hslot howes hships =>
    exact put_ended ht hid (fun hterminal => absurd hterminal (hlive hlegal)) hu hended
  | failed t t' note depth ht hid hlegal hstate =>
    exact put_ended (q := w.state.record _) ht hid (fun hterminal => absurd hterminal (hlive hlegal)) hu hended
  | refused t t' hfails ht hid hqueued hstate hurl =>
    exact put_ended (q := w.state.record _) ht hid (fun _ => ⟨hstate, hurl⟩) hu hended
  | completed t t' url now hm ht hid hlegal hstate hurl =>
    exact put_ended (q := w.state.record _) ht hid (fun hterminal => absurd hterminal (hlive hlegal)) hu hended
  | late t t' url now hm ht hid hlate hstate => exact absurd (horderly.approved _ _ _ t hm ht) hlate

/-- A segment that ships a ticket leaves it done, with the report to be made. -/
theorem Effect.shipped (h : Effect concurrency m w.state r) (horderly : Orderly w m) (hlog : .shipped id url ∈ r.1.log) :
    .shipped id url ∈ w.state.log ∨
      ∃ t, r.1.ticket? id = some t ∧ t.state = .done ∧ t.evidenceUrl = some url ∧ r.2 = some (.complete id url) := by
  cases h with
  | idle => exact Or.inl hlog
  | launched => exact Or.inl ((mem_record.1 hlog).resolve_right nofun)
  | reported => exact Or.inl ((mem_record.1 hlog).resolve_right nofun)
  | shipping => exact Or.inl ((mem_record.1 hlog).resolve_right nofun)
  | annotated => exact Or.inl hlog
  | enqueued => exact Or.inl hlog
  | entered => exact Or.inl ((mem_record.1 hlog).resolve_right nofun)
  | failed =>
    have hbefore := (mem_record.1 hlog).resolve_right nofun
    exact Or.inl ((mem_record.1 hbefore).resolve_right nofun)
  | refused => exact Or.inl ((mem_record.1 hlog).resolve_right nofun)
  | completed t t' url' now hm ht hid hlegal hstate hurl =>
    have hbefore := (mem_record.1 hlog).resolve_right nofun
    rcases mem_record.1 hbefore with hold | hnew
    · exact Or.inl hold
    · injection hnew with hsame hsameUrl
      subst hsame hsameUrl
      exact Or.inr ⟨t', ticket?_put_self (q := w.state.record _) ht hid, hstate, hurl, rfl⟩
  | late t t' url' now hm ht hid hlate hstate => exact absurd (horderly.approved _ _ _ t hm ht) hlate

/-- A segment that fails a ticket leaves it failed, with the report to be made. -/
theorem Effect.failing (h : Effect concurrency m w.state r) (horderly : Orderly w m) (hlog : .failing id ∈ r.1.log) :
    .failing id ∈ w.state.log ∨
      ∃ t, r.1.ticket? id = some t ∧ t.state = .failed ∧ ∃ note depth, r.2 = some (.fail id note depth) := by
  cases h with
  | idle => exact Or.inl hlog
  | launched => exact Or.inl ((mem_record.1 hlog).resolve_right nofun)
  | reported => exact Or.inl ((mem_record.1 hlog).resolve_right nofun)
  | shipping => exact Or.inl ((mem_record.1 hlog).resolve_right nofun)
  | annotated => exact Or.inl hlog
  | enqueued => exact Or.inl hlog
  | entered => exact Or.inl ((mem_record.1 hlog).resolve_right nofun)
  | failed t t' note depth ht hid hlegal hstate =>
    have hbefore := (mem_record.1 hlog).resolve_right nofun
    rcases mem_record.1 hbefore with hold | hnew
    · exact Or.inl hold
    · injection hnew with hsame
      subst hsame
      exact Or.inr ⟨t', ticket?_put_self (q := w.state.record _) ht hid, hstate, note, depth, rfl⟩
  | refused t t' hfails ht hid hqueued hstate hurl => exact absurd hqueued (horderly.unqueued _ t hfails ht)
  | completed =>
    have hbefore := (mem_record.1 hlog).resolve_right nofun
    exact Or.inl ((mem_record.1 hbefore).resolve_right nofun)
  | late => exact Or.inl ((mem_record.1 hlog).resolve_right nofun)

/-! ## Orderly runs -/

/-- Shipped tickets are done and failed ones failed; what is not reported yet waits to be. -/
structure Kept (w : Config Queue Frame) : Prop where
  shipped : ∀ id url, .shipped id url ∈ w.state.log → ∃ t, w.state.ticket? id = some t ∧ t.state = .done ∧
    t.evidenceUrl = some url ∧
      (.reported { executionId := id, state := .done, evidenceUrl := some url } ∈ w.state.log ∨ .complete id url ∈ w.pending)
  failing : ∀ id, .failing id ∈ w.state.log → ∃ t, w.state.ticket? id = some t ∧ t.state = .failed ∧
    ((∃ note, .reported { executionId := id, state := .failed, note := note } ∈ w.state.log) ∨
      ∃ note depth, .fail id note depth ∈ w.pending)

/-- A frame still waits after a move, or its call has gone on. -/
theorem pending_step (concurrency : Nat) (m : QueueMove) {f : Frame} (hf : f ∈ w.pending) :
    f ∈ ((calls concurrency).step m w).pending ∨
      ∃ reply, m = .resume f reply ∧ ((calls concurrency).step m w).state = (Queue.resume concurrency f reply w.state).1 := by
  rcases step_cases (o := calls concurrency) m w with ⟨c, -, hstep⟩ | ⟨g, reply, fs, rfl, hpending, hstep⟩ | hstep
  · rw [hstep]
    exact Or.inl (Multiset.mem_add.2 (Or.inr hf))
  · rw [hstep]
    rw [hpending, Multiset.mem_cons] at hf
    rcases hf with rfl | hf
    · exact Or.inr ⟨reply, rfl, rfl⟩
    · exact Or.inl (Multiset.mem_add.2 (Or.inr hf))
  · rw [hstep]
    exact Or.inl hf

/-- The end of a shipped ticket is reported next. -/
theorem complete_step (concurrency : Nat) (horderly : Orderly w m) (hf : .complete id url ∈ w.pending) :
    .reported { executionId := id, state := .done, evidenceUrl := some url } ∈ ((calls concurrency).step m w).state.log ∨
      .complete id url ∈ ((calls concurrency).step m w).pending := by
  rcases pending_step concurrency m hf with hf | ⟨⟨result, now⟩, rfl, hstate⟩
  · exact Or.inr hf
  · rw [hstate]
    cases result with
    | ok value => exact Or.inl (mem_record.2 (Or.inr rfl))
    | error message =>
      have hends := horderly.persisted _ _ _ rfl
      cases hends

theorem fail_step (concurrency : Nat) {note : Option Text} {depth : Nat} (horderly : Orderly w m) (hf : .fail id note depth ∈ w.pending) :
    .reported { executionId := id, state := .failed, note := note } ∈ ((calls concurrency).step m w).state.log ∨
      .fail id note depth ∈ ((calls concurrency).step m w).pending := by
  rcases pending_step concurrency m hf with hf | ⟨⟨result, now⟩, rfl, hstate⟩
  · exact Or.inr hf
  · rw [hstate]
    cases result with
    | ok value => exact Or.inl (mem_record.2 (Or.inr rfl))
    | error message =>
      have hends := horderly.persisted _ _ _ rfl
      cases hends

/-- **An orderly move keeps them.** -/
theorem step_kept (horderly : Orderly w m) (h : Kept w) : Kept ((calls concurrency).step m w) := by
  rcases step_effect concurrency m w with hstep | ⟨fs, r, heffect, -, hstep⟩
  · rwa [hstep]
  have hstate : ((calls concurrency).step m w).state = r.1 := by rw [hstep]; rfl
  have hnext : ∀ {f}, r.2 = some f → f ∈ ((calls concurrency).step m w).pending := by
    intro f hf
    rw [hstep]
    show f ∈ (r.2.elim 0 fun f => {f}) + fs
    rw [hf]
    exact Multiset.mem_add.2 (Or.inl (Multiset.mem_singleton_self f))
  constructor
  · intro id url hlog
    rw [hstate] at hlog
    rcases heffect.shipped horderly hlog with hbefore | ⟨t, ht, hdone, hurl, hframe⟩
    · obtain ⟨t, ht, hdone, hurl, hreport⟩ := h.shipped id url hbefore
      obtain ⟨t', ht', hsame, hsameUrl⟩ := heffect.ended horderly ht (Or.inl hdone)
      rw [hstate]
      refine ⟨t', ht', hsame.trans hdone, hsameUrl.trans hurl, ?_⟩
      rcases hreport with hreport | hpending
      · exact Or.inl (heffect.log_mono hreport)
      · rw [← hstate]
        exact complete_step concurrency horderly hpending
    · rw [hstate]
      exact ⟨t, ht, hdone, hurl, Or.inr (hnext hframe)⟩
  · intro id hlog
    rw [hstate] at hlog
    rcases heffect.failing horderly hlog with hbefore | ⟨t, ht, hfailed, note, depth, hframe⟩
    · obtain ⟨t, ht, hfailed, hreport⟩ := h.failing id hbefore
      obtain ⟨t', ht', hsame, -⟩ := heffect.ended horderly ht (Or.inr hfailed)
      rw [hstate]
      refine ⟨t', ht', hsame.trans hfailed, ?_⟩
      rcases hreport with ⟨note, hreport⟩ | ⟨note, depth, hpending⟩
      · exact Or.inl ⟨note, heffect.log_mono hreport⟩
      · rw [← hstate]
        rcases fail_step concurrency horderly hpending with hreport | hpending
        · exact Or.inl ⟨note, hreport⟩
        · exact Or.inr ⟨note, depth, hpending⟩
    · rw [hstate]
      exact ⟨t, ht, hfailed, Or.inr ⟨note, depth, hnext hframe⟩⟩

/-! ## Tickets that are approved at boot -/

/-- No call ships the ticket, and none will. -/
structure Stranded (id : Text) (w : Config Queue Frame) : Prop where
  frames : ∀ f ∈ w.pending, f.ships ≠ some id
  log : .shipping id ∉ w.state.log
  ticket : ∃ t, w.state.ticket? id = some t ∧ (t.state = .approved ∨ t.state = .done ∨ t.state = .failed)

/-- What is to be shipped was so before, or was approved just now. -/
theorem Effect.ships (h : Effect concurrency m q r) (hships : r.2.bind Frame.ships = some id) :
    (resumed m).bind Frame.ships = some id ∨ ∃ t, q.ticket? id = some t ∧ t.state = .needsReview := by
  cases h with
  | idle f hf => exact absurd (hf.2.symm.trans hships) nofun
  | launched _ f hf => exact absurd (hf.2.symm.trans hships) nofun
  | reported _ f hf => exact absurd (hf.2.symm.trans hships) nofun
  | shipping _ hm =>
    rw [hm]
    exact Or.inl hships
  | annotated _ _ f hf => exact absurd (hf.2.symm.trans hships) nofun
  | enqueued => cases hships
  | entered t t' f ht hid hlegal hslot howes hf =>
    rcases hf with hf | ⟨hf, hreview⟩
    · exact absurd (hf.symm.trans hships) nofun
    · have hsame : some t.executionId = some id := hf.symm.trans hships
      rw [← Option.some.inj hsame]
      exact Or.inr ⟨t, ht, hreview⟩
  | failed => cases hships
  | refused => cases hships
  | completed => cases hships
  | late => cases hships

/-- `ship` is called for a ticket that has been approved. -/
theorem Effect.shipping_of_log (h : Effect concurrency m q r) (hlog : .shipping id ∈ r.1.log) :
    .shipping id ∈ q.log ∨ resumed m = some (.approve id) := by
  cases h with
  | idle => exact Or.inl hlog
  | launched => exact Or.inl ((mem_record.1 hlog).resolve_right nofun)
  | reported => exact Or.inl ((mem_record.1 hlog).resolve_right nofun)
  | shipping _ hm =>
    rcases mem_record.1 hlog with hold | hnew
    · exact Or.inl hold
    · injection hnew with hsame
      rw [hsame]
      exact Or.inr hm
  | annotated => exact Or.inl hlog
  | enqueued => exact Or.inl hlog
  | entered => exact Or.inl ((mem_record.1 hlog).resolve_right nofun)
  | failed =>
    have hbefore := (mem_record.1 hlog).resolve_right nofun
    exact Or.inl ((mem_record.1 hbefore).resolve_right nofun)
  | refused => exact Or.inl ((mem_record.1 hlog).resolve_right nofun)
  | completed =>
    have hbefore := (mem_record.1 hlog).resolve_right nofun
    exact Or.inl ((mem_record.1 hbefore).resolve_right nofun)
  | late => exact Or.inl ((mem_record.1 hlog).resolve_right nofun)

/-- From approved a ticket goes to one of the last states. -/
theorem Legal.from_shipped {state : ExecState} (h : Legal t state)
    (hstate : t.state = .approved ∨ t.state = .done ∨ t.state = .failed) : state = .done ∨ state = .failed := by
  have happroved := hstate.resolve_right fun hended => hended.elim h.not_terminal.1 h.not_terminal.2
  rcases h with h | ⟨hblock, -⟩
  · rw [happroved] at h
    simpa only [transitions, List.mem_cons, List.not_mem_nil, or_false] using h
  · unfold ExecutionTicket.isRestartInterruptedBlock at hblock
    rw [happroved] at hblock
    cases hblock

theorem step_stranded (m : QueueMove) (h : Stranded id w) : Stranded id ((calls concurrency).step m w) := by
  obtain ⟨t, ht, hstate⟩ := h.ticket
  have hadvances : Advances t w.state ((calls concurrency).step m w).state := step_advances m ht
  have hticket : ∃ t', ((calls concurrency).step m w).state.ticket? id = some t' ∧
      (t'.state = .approved ∨ t'.state = .done ∨ t'.state = .failed) := by
    obtain ⟨t', ht', hcases⟩ := hadvances
    rw [ticket?_id ht] at ht'
    refine ⟨t', ht', ?_⟩
    rcases hcases with ⟨hsame, -⟩ | ⟨hlegal, -⟩
    · rwa [hsame]
    · exact Or.inr (hlegal.from_shipped hstate)
  rcases step_effect concurrency m w with hstep | ⟨fs, r, heffect, hpending, hstep⟩
  · rwa [hstep]
  have hresumed : (resumed m).bind Frame.ships ≠ some id := by
    intro hships
    cases hm : resumed m with
    | none =>
      rw [hm] at hships
      cases hships
    | some f =>
      rw [hm] at hships hpending
      refine h.frames f ?_ hships
      rw [hpending]
      exact Multiset.mem_add.2 (Or.inl (Multiset.mem_singleton_self f))
  refine ⟨fun f hf hships => ?_, fun hlog => ?_, hticket⟩
  · rw [hstep] at hf
    rcases Multiset.mem_add.1 hf with hnew | hold
    · have hframe : r.2 = some f := by
        cases hr : r.2 with
        | none =>
          rw [hr] at hnew
          cases hnew
        | some g =>
          rw [hr] at hnew
          rw [Multiset.mem_singleton.1 hnew]
      have hships' : r.2.bind Frame.ships = some id := by rwa [hframe]
      rcases heffect.ships hships' with hbefore | ⟨u, hu, hreview⟩
      · exact hresumed hbefore
      · rw [ht] at hu
        obtain rfl := Option.some.inj hu
        rw [hreview] at hstate
        simp at hstate
    · refine h.frames f ?_ hships
      rw [hpending]
      exact Multiset.mem_add.2 (Or.inr hold)
  · rw [hstep] at hlog
    rcases heffect.shipping_of_log hlog with hold | hm
    · exact h.log hold
    · exact hresumed (by rw [hm]; rfl)

theorem run_stranded (moves : List QueueMove) (ht : q.ticket? id = some t) (hstate : t.state = .approved) (hlog : q.log = []) :
    Stranded id ((calls concurrency).run moves ⟨q, 0⟩) := by
  refine run_invariant (fun w m _ hw => step_stranded m hw) (along_true moves _) ⟨fun f hf => ?_, ?_, t, ht, Or.inl hstate⟩
  · exact absurd hf (Multiset.notMem_zero f)
  · rw [hlog]
    exact List.not_mem_nil

/-- **A restart strands what is approved.** -/
theorem shippable_iff (hlog : q.log = []) :
    Shippable concurrency q ↔ ∀ id t, q.ticket? id = some t → t.state ≠ .approved := by
  constructor
  · intro h id t ht hstate
    obtain ⟨moves, hshipping, -⟩ := h id t ht hstate
    exact (run_stranded moves ht hstate hlog).log hshipping
  · intro h id t ht hstate
    exact absurd hstate (h id t ht)

/-- **Orderly runs that have settled**: what was shipped is done and what was
failed is failed, both reported; and what is approved at boot is not shipped. -/
theorem settled_runs (concurrency : Nat) (initialTickets : List ExecutionTicket) :
    (∀ moves, (calls concurrency).Along Orderly moves ⟨boot initialTickets, 0⟩ →
      ((calls concurrency).run moves ⟨boot initialTickets, 0⟩).pending = 0 →
        ShippedDone ((calls concurrency).run moves ⟨boot initialTickets, 0⟩).state ∧
          FailedReported ((calls concurrency).run moves ⟨boot initialTickets, 0⟩).state) ∧
      (Shippable concurrency (boot initialTickets) ↔
        ∀ id t, (boot initialTickets).ticket? id = some t → t.state ≠ .approved) := by
  refine ⟨fun moves hmoves hpending => ?_, shippable_iff rfl⟩
  have hkept : Kept ((calls concurrency).run moves ⟨boot initialTickets, 0⟩) :=
    run_invariant (fun w m horderly hw => step_kept horderly hw) hmoves
      ⟨fun _ _ hlog => absurd hlog List.not_mem_nil, fun _ hlog => absurd hlog List.not_mem_nil⟩
  constructor
  · intro id url hlog
    obtain ⟨t, ht, hdone, hurl, hreport⟩ := hkept.shipped id url hlog
    refine ⟨t, ht, hdone, hurl, hreport.resolve_right fun hwaits => ?_⟩
    rw [hpending] at hwaits
    exact Multiset.notMem_zero _ hwaits
  · intro id hlog
    obtain ⟨t, ht, hfailed, hreport⟩ := hkept.failing id hlog
    refine ⟨t, ht, hfailed, hreport.resolve_right fun hwaits => ?_⟩
    obtain ⟨note, depth, hwaits⟩ := hwaits
    rw [hpending] at hwaits
    exact Multiset.notMem_zero _ hwaits

def reviewTicket : ExecutionTicket where
  executionId := "x-1".toList
  target := "claude".toList
  context := "send the mail".toList
  state := .needsReview
  updatedAt := 0

def sentUrl : Text := "https://mail/1".toList

/-- A ticket is approved, shipped and reported. -/
def shipment : List QueueMove :=
  [.call ⟨.approve "x-1".toList none, 1⟩, .resume (.approve "x-1".toList) ⟨.ok [], 2⟩,
    .resume (.ship "x-1".toList) ⟨.ok sentUrl, 3⟩, .resume (.complete "x-1".toList sentUrl) ⟨.ok [], 4⟩,
    .resume .reportDone ⟨.ok [], 5⟩]

/-- A seam that answers is in order, if what it shipped is approved. -/
theorem orderly_ok {f : Frame} {value : Text} {now : Int}
    (h : ∀ id t, f = .ship id → w.state.ticket? id = some t → t.state = .approved) :
    Orderly w (.resume f ⟨.ok value, now⟩) where
  unqueued id t hfails := by cases f <;> cases hfails
  approved id url now' t hm ht := by
    injection hm with hf
    exact h id t hf ht
  persisted f' now' message hm := by
    injection hm with _ hr
    injection hr with hresult
    cases hresult

theorem shipment_orderly : (calls 1).Along Orderly shipment ⟨boot [reviewTicket], 0⟩ := by
  have hcall : Orderly ⟨boot [reviewTicket], 0⟩ (.call ⟨.approve "x-1".toList none, 1⟩) :=
    ⟨fun id t hfails => (by cases hfails), fun id url now t hm => (by cases hm), fun f now message hm => (by cases hm)⟩
  refine ⟨hcall, orderly_ok ?_, orderly_ok ?_, orderly_ok ?_, orderly_ok ?_, trivial⟩
  · intro id t hf
    cases hf
  · intro id t hf ht
    injection hf with hid
    subst hid
    have happroved : (((calls 1).run (shipment.take 2) ⟨boot [reviewTicket], 0⟩).state.ticket? "x-1".toList).map (·.state) =
        some .approved := by decide +kernel
    rw [show ((calls 1).run (shipment.take 2) ⟨boot [reviewTicket], 0⟩).state.ticket? "x-1".toList = some t from ht] at happroved
    exact Option.some.inj happroved
  · intro id t hf
    cases hf
  · intro id t hf
    cases hf

theorem settled_runs_shipment :
    ShippedDone ((calls 1).run shipment ⟨boot [reviewTicket], 0⟩).state ∧
      .shipped "x-1".toList sentUrl ∈ ((calls 1).run shipment ⟨boot [reviewTicket], 0⟩).state.log :=
  ⟨((settled_runs 1 [reviewTicket]).1 shipment shipment_orderly (by decide +kernel)).1, by decide +kernel⟩

/-- The ticket is failed while it is being shipped. -/
def failedShipment : List QueueMove :=
  [.call ⟨.approve "x-1".toList none, 1⟩, .resume (.approve "x-1".toList) ⟨.ok [], 2⟩,
    .call ⟨.fail "x-1".toList none, 3⟩, .resume (.ship "x-1".toList) ⟨.ok sentUrl, 4⟩,
    .resume (.fail "x-1".toList none 0) ⟨.ok [], 5⟩, .resume (.reportThenPump 0) ⟨.ok [], 6⟩]

/-- A ticket that waits for a slot is failed. -/
def failedQueued : List QueueMove := [.call ⟨.enqueue queuedInput, 1⟩, .resume .enqueue ⟨.ok [], 2⟩, .call ⟨.fail "x-2".toList none, 3⟩]

theorem shipment_lost :
    (((calls 1).run failedShipment ⟨boot [reviewTicket], 0⟩).pending = 0 ∧
        ¬ShippedDone ((calls 1).run failedShipment ⟨boot [reviewTicket], 0⟩).state) ∧
      (((calls 1).run failedQueued ⟨boot [runningTicket], 0⟩).pending = 0 ∧
        ¬FailedReported ((calls 1).run failedQueued ⟨boot [runningTicket], 0⟩).state) ∧
      ¬Shippable 1 (boot [{ reviewTicket with state := .approved }]) := by
  refine ⟨⟨by decide +kernel, fun h => ?_⟩, ⟨by decide +kernel, fun h => ?_⟩, fun h => ?_⟩
  · obtain ⟨t, ht, hdone, -⟩ := h "x-1".toList sentUrl (by decide +kernel)
    have hstate : (((calls 1).run failedShipment ⟨boot [reviewTicket], 0⟩).state.ticket? "x-1".toList).map (·.state) =
        some .failed := by decide +kernel
    rw [ht, Option.map_some, hdone] at hstate
    cases hstate
  · obtain ⟨t, ht, hfailed, -⟩ := h "x-2".toList (by decide +kernel)
    have hstate : (((calls 1).run failedQueued ⟨boot [runningTicket], 0⟩).state.ticket? "x-2".toList).map (·.state) =
        some .queued := by decide +kernel
    rw [ht, Option.map_some, hfailed] at hstate
    cases hstate
  · exact (shippable_iff rfl).1 h "x-1".toList { reviewTicket with state := .approved } (by decide +kernel) rfl

end Zenod.Execution
