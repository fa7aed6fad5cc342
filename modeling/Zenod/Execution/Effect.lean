/-
What one segment of a call does to the queue: `start_effect` and
`resume_effect` say it of every first segment and of every further one.
-/
import Zenod.Execution.Queue

namespace Zenod.Execution

open Keyed Text

variable {q q' : Queue} {t t' : ExecutionTicket} {id : Text} {now : Int} {concurrency depth : Nat}

/-! ## Tickets -/

theorem ticket?_id (h : q.ticket? id = some t) : t.executionId = id := by
  have hid := List.find?_some h
  rwa [decide_eq_true_eq] at hid

theorem ticket?_self (h : q.ticket? id = some t) : q.ticket? t.executionId = some t := by rwa [ticket?_id h]

theorem identifies_id (id : Text) : Table.Identifies fun r : ExecutionTicket => decide (r.executionId = id) := by
  intro a b ha hb
  rw [decide_eq_true_eq] at ha hb
  show (a.executionId == b.executionId) = true
  rw [ha, hb, beq_self_eq_true]

theorem ticket?_of_mem (h : t ∈ q.tickets.rows) : q.ticket? t.executionId = some t :=
  Table.find?_of_mem (identifies_id _) h (decide_eq_true rfl)

namespace Queue

@[simp] theorem record_tickets (q : Queue) (e : Event) : (q.record e).tickets = q.tickets := rfl

@[simp] theorem record_log (q : Queue) (e : Event) : (q.record e).log = q.log ++ [e] := rfl

@[simp] theorem put_log (q : Queue) (t : ExecutionTicket) : (q.put t).log = q.log := rfl

@[simp] theorem ticket?_record (q : Queue) (e : Event) (id : Text) : (q.record e).ticket? id = q.ticket? id := rfl

/-- The ticket that is put is found, the others as before. -/
theorem ticket?_put (q : Queue) (t : ExecutionTicket) (id : Text) :
    (q.put t).ticket? id = (q.ticket? id).map fun r => if r.executionId = t.executionId then { t with executionId := r.executionId }
      else r := by
  have hfind := @Table.find?_update _ _ q.tickets (fun r => decide (r.executionId = t.executionId))
    (fun r => decide (r.executionId = id)) (fun r => { t with executionId := r.executionId }) (fun _ _ => rfl) fun _ => rfl
  simp only [decide_eq_true_eq] at hfind
  exact hfind

theorem put_put {a b : ExecutionTicket} (q : Queue) (h : b.executionId = a.executionId) : (q.put a).put b = q.put b := by
  show { q with tickets := replace (replace q.tickets a) b } = { q with tickets := replace q.tickets b }
  congr 1
  refine Table.ext ?_
  show ((q.tickets.rows.map _).map _) = q.tickets.rows.map _
  rw [List.map_map]
  refine List.map_congr_left fun r _ => ?_
  simp only [Function.comp_apply, decide_eq_true_eq, h]
  by_cases hr : r.executionId = a.executionId
  · simp [hr]
  · simp [hr]

end Queue

/-! ## Frames -/

/-- The report a frame owes: its ticket entered a state, and the call has not said so yet. -/
def Frame.owes : Frame → Option (Text × ExecState)
  | .start id _ => some (id, .running)
  | .outcome id state => some (id, state)
  | .blocked id _ => some (id, .blocked)
  | .complete id _ => some (id, .done)
  | .fail id _ _ => some (id, .failed)
  | _ => none

/-- The ticket a frame is to ship, or has asked to. -/
def Frame.ships : Frame → Option Text
  | .approve id => some id
  | .ship id => some id
  | _ => none

/-- A move of a queue: a caller's, or a seam's. -/
abbrev QueueMove := Interleaving.Move Call Frame Reply

/-- The frame that a move resumes. -/
def resumed : QueueMove → Option Frame
  | .call _ => none
  | .resume f _ => some f

/-- The ticket a move calls `fail` for. -/
def fails : QueueMove → Option Text
  | .call ⟨.fail id _, _⟩ => some id
  | .resume (.launch id _) ⟨.error _, _⟩ => some id
  | .resume (.ship id) ⟨.error _, _⟩ => some id
  | _ => none

/-- A frame that owes no report and ships nothing, if there is one. -/
def Plain (f : Option Frame) : Prop := f.bind Frame.owes = none ∧ f.bind Frame.ships = none

/-- A ticket may enter a state: by a documented transition, or because the outcome of an interrupted run comes late. -/
def Legal (t : ExecutionTicket) (state : ExecState) : Prop :=
  state ∈ transitions t.state ∨ t.isRestartInterruptedBlock = true ∧ (state = .needsReview ∨ state = .done)

/-! ## Segments -/

/-- What the segment of a move does. -/
inductive Effect (concurrency : Nat) (m : QueueMove) (q : Queue) : Segment → Prop
  | idle (f : Option Frame) (hf : Plain f) : Effect concurrency m q (q, f)
  | launched (id : Text) (f : Option Frame) (hf : Plain f) : Effect concurrency m q (q.record (.launched id), f)
  | reported (event : ExecutionEvent) (f : Option Frame) (hf : Plain f)
    (h : (resumed m).bind Frame.owes = some (event.executionId, event.state)) :
    Effect concurrency m q (q.record (.reported event), f)
  | shipping (id : Text) (h : resumed m = some (.approve id)) :
    Effect concurrency m q (q.record (.shipping id), some (.ship id))
  | annotated (t t' : ExecutionTicket) (f : Option Frame) (hf : Plain f) (ht : q.ticket? t.executionId = some t)
    (hid : t'.executionId = t.executionId) (hstate : t'.state = t.state) (hurl : t'.evidenceUrl = t.evidenceUrl) :
    Effect concurrency m q (q.put t', f)
  | enqueued (t : ExecutionTicket) (tickets : Table ExecutionTicket) (h : q.tickets.insert? t = some tickets)
    (hstate : t.state = .queued) : Effect concurrency m q ({ q with tickets := tickets }, some .enqueue)
  | entered (t t' : ExecutionTicket) (f : Frame) (ht : q.ticket? t.executionId = some t)
    (hid : t'.executionId = t.executionId) (hlegal : Legal t t'.state) (hslot : t'.state = .running → q.runningCount < concurrency)
    (howes : f.owes = none ∨ f.owes = some (t.executionId, t'.state))
    (hships : f.ships = none ∨ f.ships = some t.executionId ∧ t.state = .needsReview) :
    Effect concurrency m q ((q.put t').record (.entered t.executionId t'.state), some f)
  | failed (t t' : ExecutionTicket) (note : Option Text) (depth : Nat) (ht : q.ticket? t.executionId = some t)
    (hid : t'.executionId = t.executionId) (hlegal : Legal t t'.state) (hstate : t'.state = .failed) :
    Effect concurrency m q
      (((q.record (.failing t.executionId)).put t').record (.entered t.executionId t'.state), some (.fail t.executionId note depth))
  /-- A queued ticket is not failed. -/
  | refused (t t' : ExecutionTicket) (h : fails m = some t.executionId) (ht : q.ticket? t.executionId = some t) (hid : t'.executionId = t.executionId)
    (hqueued : t.state = .queued) (hstate : t'.state = t.state) (hurl : t'.evidenceUrl = t.evidenceUrl) :
    Effect concurrency m q ((q.record (.failing t.executionId)).put t', none)
  | completed (t t' : ExecutionTicket) (url : Text) (now : Int) (h : m = .resume (.ship t.executionId) ⟨.ok url, now⟩)
    (ht : q.ticket? t.executionId = some t) (hid : t'.executionId = t.executionId) (hlegal : Legal t t'.state)
    (hstate : t'.state = .done) (hurl : t'.evidenceUrl = some url) :
    Effect concurrency m q
      (((q.record (.shipped t.executionId url)).put t').record (.entered t.executionId t'.state),
        some (.complete t.executionId url))
  /-- The shipped ticket is not approved any more. -/
  | late (t t' : ExecutionTicket) (url : Text) (now : Int) (h : m = .resume (.ship t.executionId) ⟨.ok url, now⟩)
    (ht : q.ticket? t.executionId = some t) (hid : t'.executionId = t.executionId) (hlate : t.state ≠ .approved)
    (hstate : t'.state = t.state) : Effect concurrency m q ((q.record (.shipped t.executionId url)).put t', none)

variable {m : QueueMove}

namespace Queue

/-- A legal transition of a ticket that is put. -/
theorem transition_put {state : ExecState} (h : state ∈ transitions t.state) (now : Int) (next : Frame) (q : Queue) :
    ∃ t' : ExecutionTicket, t'.executionId = t.executionId ∧ t'.state = state ∧ t'.evidenceUrl = t.evidenceUrl ∧
      transition t state now next (q.put t) = ((q.put t').record (.entered t.executionId state), some next) := by
  obtain ⟨t', hmoved, hid, hstate, hurl⟩ : ∃ t', moved t state now = some t' ∧ t'.executionId = t.executionId ∧
      t'.state = state ∧ t'.evidenceUrl = t.evidenceUrl := by
    unfold moved
    rw [if_pos (List.contains_iff_mem.2 h)]
    exact ⟨_, rfl, rfl, rfl, rfl⟩
  refine ⟨t', hid, hstate, hurl, ?_⟩
  unfold transition
  rw [hmoved]
  simp only []
  rw [put_put q hid]

/-- An illegal one changes nothing. -/
theorem transition_of_not_mem {state : ExecState} (h : state ∉ transitions t.state) (now : Int) (next : Frame) (q : Queue) :
    transition t state now next q = (q, none) := by
  unfold transition moved
  rw [if_neg fun hmem => h (List.contains_iff_mem.1 hmem)]

theorem put_self (h : q.ticket? t.executionId = some t) : q.put t = q := by
  have hrows : (replace q.tickets t).rows = q.tickets.rows := by
    show q.tickets.rows.map _ = _
    refine (List.map_congr_left fun r hr => ?_).trans (List.map_id _)
    split
    next hid =>
      rw [decide_eq_true_eq] at hid
      have hfound := ticket?_of_mem hr
      rw [hid, h] at hfound
      rw [Option.some.inj hfound]
      rfl
    next => rfl
  show { q with tickets := replace q.tickets t } = q
  rw [Table.ext hrows]

theorem plain_none : Plain none := ⟨rfl, rfl⟩

theorem pumped_effect (depth : Nat) (q : Queue) : Effect concurrency m q (pumped depth q) := by
  unfold pumped
  split
  next => exact .idle none plain_none
  next => exact .idle _ ⟨rfl, rfl⟩

theorem nextQueued_eq_some (h : q.nextQueued = some t) : q.ticket? t.executionId = some t ∧ t.state = .queued := by
  have hmem := List.mem_of_mem_head? h
  rw [List.mem_insertionSort, List.mem_filter, decide_eq_true_eq] at hmem
  exact ⟨ticket?_of_mem hmem.1, hmem.2⟩

/-- **A pump starts a ticket** if there is a slot. -/
theorem pump_effect (concurrency depth : Nat) (now : Int) (q : Queue) :
    Effect concurrency m q (q.pump concurrency depth now) := by
  unfold pump
  split
  next hslot =>
    split
    next => exact pumped_effect depth q
    next t hnext =>
      obtain ⟨ht, hqueued⟩ := nextQueued_eq_some hnext
      have hmem : ExecState.running ∈ transitions t.state := by
        rw [hqueued]
        decide
      obtain ⟨t', hid, hstate, -, heq⟩ := transition_put hmem now (.start t.executionId depth) q
      rw [put_self ht] at heq
      rw [heq, ← hstate]
      refine .entered t t' _ ht hid (Or.inl (by rw [hstate]; exact hmem)) (fun _ => hslot) (Or.inr ?_) (Or.inl rfl)
      rw [hstate]
      rfl
  next => exact pumped_effect depth q

/-- **`fail` leaves a ticket failed**, unless it is queued. -/
theorem fail_effect {id : Text} (hfails : fails m = some id) (note : Option Text) (depth : Nat) (now : Int) (q : Queue) :
    Effect concurrency m q (q.fail id note depth now) := by
  unfold fail
  split
  next => exact .idle none plain_none
  next t ht =>
    split
    next => exact pumped_effect depth q
    next hopen =>
      rw [not_or] at hopen
      obtain rfl := ticket?_id ht
      simp only []
      generalize hnoted : ({ t with note := note.or t.note } : ExecutionTicket) = noted
      have hnid : noted.executionId = t.executionId := by rw [← hnoted]
      have hnstate : noted.state = t.state := by rw [← hnoted]
      by_cases hmem : ExecState.failed ∈ transitions noted.state
      · obtain ⟨t', hid, hstate, -, heq⟩ :=
          transition_put hmem now (.fail t.executionId note depth) (q.record (.failing t.executionId))
        rw [heq, hnid, ← hstate]
        refine .failed t t' note depth ht (hid.trans hnid) (Or.inl ?_) hstate
        rw [hstate, ← hnstate]
        exact hmem
      · rw [transition_of_not_mem hmem]
        refine .refused t noted hfails ht hnid ?_ hnstate (by rw [← hnoted])
        rw [hnstate] at hmem
        cases hstate : t.state with
        | queued => rfl
        | done => exact absurd hstate hopen.1
        | failed => exact absurd hstate hopen.2
        | _ =>
          rw [hstate] at hmem
          exact absurd (by decide) hmem

theorem enqueue_effect (input : EnqueueInput) (now : Int) (q : Queue) : Effect concurrency m q (q.enqueue input now) := by
  unfold enqueue
  split
  next => exact .idle none plain_none
  next tickets hinsert => exact .enqueued _ tickets hinsert rfl

/-- A call moves a ticket it has noted something in. -/
theorem transition_effect {noted : ExecutionTicket} {state : ExecState} {next : Frame}
    (ht : q.ticket? t.executionId = some t) (hid : noted.executionId = t.executionId)
    (hmem : state ∈ transitions noted.state) (hlegal : Legal t state) (hstate : state ≠ .running)
    (howes : next.owes = none ∨ next.owes = some (t.executionId, state))
    (hships : next.ships = none ∨ next.ships = some t.executionId ∧ t.state = .needsReview) (now : Int) :
    Effect concurrency m q (transition noted state now next (q.put noted)) := by
  obtain ⟨t', hid', hstate', -, heq⟩ := transition_put hmem now next q
  rw [heq, hid]
  rw [← hstate'] at hlegal hstate howes ⊢
  exact .entered t t' next ht (hid'.trans hid) hlegal (fun hrunning => absurd hrunning hstate) howes hships

/-- A run has ended, or one that was interrupted. -/
theorem reportOutcome_effect (input : OutcomeInput) (now : Int) (q : Queue) :
    Effect concurrency m q (q.reportOutcome input now) := by
  unfold reportOutcome
  split
  next => exact .idle none plain_none
  next t ht =>
    simp only []
    generalize hrestarted : (if t.isRestartInterruptedBlock = true then { t with state := .running, note := none } else t) = restarted
    split
    next => exact .idle none plain_none
    next hrunning =>
      rw [ne_eq, not_not] at hrunning
      generalize hended : (if input.outward = true then ExecState.needsReview else ExecState.done) = ended
      have hcases : ended = .needsReview ∨ ended = .done := by
        rw [← hended]
        split
        next => exact Or.inl rfl
        next => exact Or.inr rfl
      have hrid : restarted.executionId = t.executionId := by
        rw [← hrestarted]
        split <;> rfl
      have hmem : ended ∈ transitions restarted.state := by
        rw [hrunning]
        rcases hcases with rfl | rfl <;> decide
      refine transition_effect (ticket?_self ht) ?_ ?_ ?_ ?_ (Or.inr ?_) ?_ now
      · exact hrid
      · exact hmem
      · by_cases hblock : t.isRestartInterruptedBlock = true
        · exact Or.inr ⟨hblock, hcases⟩
        · rw [if_neg hblock] at hrestarted
          rw [← hrestarted] at hmem
          exact Or.inl hmem
      · rcases hcases with rfl | rfl <;> decide
      · show some (restarted.executionId, ended) = _
        rw [hrid]
      · exact Or.inl rfl

theorem recordProgress_effect (input : ProgressInput) (now : Int) (q : Queue) :
    Effect concurrency m q (q.recordProgress input now) := by
  unfold recordProgress
  split
  next => exact .idle none plain_none
  next t ht =>
    split
    next => exact .idle none plain_none
    next => exact .annotated t _ _ ⟨rfl, rfl⟩ (ticket?_self ht) rfl rfl rfl

theorem recordTranscriptUrl_effect (id url : Text) (now : Int) (q : Queue) :
    Effect concurrency m q (q.recordTranscriptUrl id url now) := by
  unfold recordTranscriptUrl
  split
  next => exact .idle none plain_none
  next t ht => exact .annotated t _ _ ⟨rfl, rfl⟩ (ticket?_self ht) rfl rfl rfl

theorem reportBlocked_effect (id note : Text) (now : Int) (q : Queue) :
    Effect concurrency m q (q.reportBlocked id note now) := by
  unfold reportBlocked
  split
  next => exact .idle none plain_none
  next t ht =>
    split
    next => exact .idle none plain_none
    next hrunning =>
      rw [ne_eq, not_not] at hrunning
      have hmem : ExecState.blocked ∈ transitions t.state := by
        rw [hrunning]
        decide
      refine transition_effect (ticket?_self ht) ?_ ?_ (Or.inl hmem) (by decide) ?_ ?_ now
      · rfl
      · exact hmem
      · exact Or.inr rfl
      · exact Or.inl rfl

/-- A ticket is approved once. -/
theorem approve_effect (id : Text) (finalContent : Option Text) (now : Int) (q : Queue) :
    Effect concurrency m q (q.approve id finalContent now) := by
  unfold approve
  split
  next => exact .idle none plain_none
  next t ht =>
    split
    next => exact .idle none plain_none
    next =>
      split
      next => exact .idle none plain_none
      next hreview =>
        rw [ne_eq, not_not] at hreview
        have hmem : ExecState.approved ∈ transitions t.state := by
          rw [hreview]
          decide
        refine transition_effect (ticket?_self ht) ?_ ?_ (Or.inl hmem) (by decide) ?_ ?_ now
        · rfl
        · exact hmem
        · exact Or.inl rfl
        · exact Or.inr ⟨rfl, hreview⟩

theorem unblock_effect (id : Text) (guidance : Option Text) (now : Int) (q : Queue) :
    Effect concurrency m q (q.unblock id guidance now) := by
  unfold unblock
  split
  next => exact .idle none plain_none
  next t ht =>
    split
    next => exact .idle none plain_none
    next hblocked =>
      rw [ne_eq, not_not] at hblocked
      have hmem : ExecState.queued ∈ transitions t.state := by
        rw [hblocked]
        decide
      cases guidance.filter (· ≠ []) with
      | none =>
        refine transition_effect (ticket?_self ht) ?_ ?_ (Or.inl hmem) (by decide) ?_ ?_ now
        · rfl
        · exact hmem
        · exact Or.inl rfl
        · exact Or.inl rfl
      | some guidance =>
        refine transition_effect (ticket?_self ht) ?_ ?_ (Or.inl hmem) (by decide) ?_ ?_ now
        · rfl
        · exact hmem
        · exact Or.inl rfl
        · exact Or.inl rfl

/-- **A first segment**, whichever the call is. -/
theorem start_effect (concurrency : Nat) (c : Call) (q : Queue) :
    Effect concurrency (.call c) q (start concurrency c q) := by
  obtain ⟨request, now⟩ := c
  cases request with
  | enqueue input => exact enqueue_effect input now q
  | reportOutcome input => exact reportOutcome_effect input now q
  | recordProgress input => exact recordProgress_effect input now q
  | recordTranscriptUrl id url => exact recordTranscriptUrl_effect id url now q
  | reportBlocked id note => exact reportBlocked_effect id note now q
  | approve id finalContent => exact approve_effect id finalContent now q
  | unblock id guidance => exact unblock_effect id guidance now q
  | resume => exact pump_effect concurrency 0 now q
  | fail id note => exact fail_effect rfl note 0 now q

theorem ship_effect (id value : Text) (now : Int) (q : Queue) :
    Effect concurrency (.resume (.ship id) ⟨.ok value, now⟩) q (q.resolved concurrency (.ship id) value now) := by
  unfold resolved
  simp only []
  split
  next => exact .idle none plain_none
  next t ht =>
    obtain rfl := ticket?_id ht
    generalize hnoted : ({ t with evidenceUrl := some value } : ExecutionTicket) = noted
    have hnid : noted.executionId = t.executionId := by rw [← hnoted]
    have hnstate : noted.state = t.state := by rw [← hnoted]
    by_cases hmem : ExecState.done ∈ transitions noted.state
    · obtain ⟨t', hid, hstate, hurl, heq⟩ :=
        transition_put hmem now (.complete t.executionId value) (q.record (.shipped t.executionId value))
      rw [heq, hnid, ← hstate]
      refine .completed t t' value now rfl ht (hid.trans hnid) (Or.inl ?_) hstate (hurl.trans (by rw [← hnoted]))
      rw [hstate, ← hnstate]
      exact hmem
    · rw [transition_of_not_mem hmem]
      refine .late t noted value now rfl ht hnid (fun happroved => hmem ?_) hnstate
      rw [hnstate, happroved]
      decide

/-- **A further segment**, whichever seam has answered. -/
theorem resume_effect (concurrency : Nat) (f : Frame) (r : Reply) (q : Queue) :
    Effect concurrency (.resume f r) q (resume concurrency f r q) := by
  obtain ⟨result, now⟩ := r
  cases result with
  | error message =>
    cases f with
    | launch id depth => exact fail_effect rfl _ (depth + 1) now q
    | ship id => exact fail_effect rfl _ 0 now q
    | _ => exact .idle none plain_none
  | ok value =>
    cases f with
    | enqueue => exact pump_effect concurrency 0 now q
    | record => exact .idle none plain_none
    | start id depth => exact .reported _ _ ⟨rfl, rfl⟩ rfl
    | reportStart id depth => exact .launched id _ ⟨rfl, rfl⟩
    | launch id depth => exact pump_effect concurrency depth now q
    | pump depth => exact pump_effect concurrency depth now q
    | outcome id state =>
      show Effect concurrency _ q (q.resolved concurrency (.outcome id state) value now)
      unfold resolved
      simp only []
      split
      next => exact .idle none plain_none
      next => exact .reported _ _ ⟨rfl, rfl⟩ rfl
    | blocked id note => exact .reported _ _ ⟨rfl, rfl⟩ rfl
    | reportThenPump depth => exact pump_effect concurrency depth now q
    | approve id => exact .shipping id rfl
    | ship id => exact ship_effect id value now q
    | complete id url => exact .reported _ _ ⟨rfl, rfl⟩ rfl
    | reportDone => exact .idle none plain_none
    | unblock => exact pump_effect concurrency 0 now q
    | fail id note depth => exact .reported _ _ ⟨rfl, rfl⟩ rfl

/-- **A move does what one segment does**, whichever call runs it. -/
theorem step_effect (concurrency : Nat) (m : QueueMove) (w : Interleaving.Config Queue Frame) :
    (calls concurrency).step m w = w ∨ ∃ fs r, Effect concurrency m w.state r ∧
      w.pending = ((resumed m).elim 0 fun f => {f}) + fs ∧ (calls concurrency).step m w = Interleaving.after fs r := by
  rcases Interleaving.step_cases m w with ⟨c, rfl, hstep⟩ | ⟨f, r, fs, rfl, hpending, hstep⟩ | hstep
  · exact Or.inr ⟨w.pending, _, start_effect concurrency c w.state, (zero_add w.pending).symm, hstep⟩
  · exact Or.inr ⟨fs, _, resume_effect concurrency f r w.state, hpending, hstep⟩
  · exact Or.inl hstep

end Queue

end Zenod.Execution
