/-
The state machine of the queue under any interleaving of its calls.

`queue_sound`: no more tickets run than there are slots, states change along
the documented transitions, and a state is reported no more often than it is
entered.
-/
import Zenod.Execution.Effect

namespace Zenod.Execution

open Keyed Text Queue Interleaving

variable {q q' : Queue} {t t' : ExecutionTicket} {id : Text} {state : ExecState} {now : Int} {concurrency : Nat}
  {m : QueueMove} {r : Segment}

/-- How often a ticket has entered a state. -/
def Queue.entries (q : Queue) (id : Text) (state : ExecState) : Nat := q.log.countP (· = .entered id state)

def Event.isReport (id : Text) (state : ExecState) : Event → Bool
  | .reported event => event.executionId = id && event.state = state
  | _ => false

/-- How often a state of a ticket was reported. -/
def Queue.reports (q : Queue) (id : Text) (state : ExecState) : Nat := q.log.countP (Event.isReport id state)

/-! ## Counting -/

theorem entries_record (q : Queue) (e : Event) (id : Text) (state : ExecState) :
    (q.record e).entries id state = q.entries id state + if e = .entered id state then 1 else 0 := by
  unfold Queue.entries
  rw [record_log, List.countP_append, List.countP_singleton]
  simp only [decide_eq_true_eq]

theorem entries_entered (q : Queue) (i : Text) (s : ExecState) (id : Text) (state : ExecState) :
    (q.record (.entered i s)).entries id state = q.entries id state + if i = id ∧ s = state then 1 else 0 := by
  rw [entries_record]
  simp only [Event.entered.injEq]

theorem reports_record (q : Queue) (e : Event) (id : Text) (state : ExecState) :
    (q.record e).reports id state = q.reports id state + if e.isReport id state then 1 else 0 := by
  unfold Queue.reports
  rw [record_log, List.countP_append, List.countP_singleton]

@[simp] theorem entries_put (q : Queue) (t : ExecutionTicket) (id : Text) (state : ExecState) :
    (q.put t).entries id state = q.entries id state := rfl

@[simp] theorem reports_put (q : Queue) (t : ExecutionTicket) (id : Text) (state : ExecState) :
    (q.put t).reports id state = q.reports id state := rfl

@[simp] theorem runningCount_record (q : Queue) (e : Event) : (q.record e).runningCount = q.runningCount := rfl

theorem count_eq_sumBy (tickets : Table ExecutionTicket) (p : ExecutionTicket → Bool) :
    (tickets.count p : Int) = tickets.sumBy fun r => if p r then 1 else 0 := by
  unfold Table.count Table.sumBy
  induction tickets.rows with
  | nil => rfl
  | cons r rows ih =>
    rw [List.countP_cons, List.map_cons, List.sum_cons, ← ih]
    by_cases hp : p r = true
    · simp [hp, add_comm]
    · simp [hp]

/-- A ticket that is put counts in the place of the one before. -/
theorem runningCount_put (ht : q.ticket? t.executionId = some t) (hid : t'.executionId = t.executionId) :
    (q.put t').runningCount + (if t.state = .running then 1 else 0) =
      q.runningCount + if t'.state = .running then 1 else 0 := by
  have hsum := @Table.sumBy_update_of_mem _ _ q.tickets (fun r => decide (r.executionId = t.executionId))
    (fun r => decide (r.executionId = t'.executionId)) (fun r => { t' with executionId := r.executionId }) (fun _ _ => rfl)
    (identifies_id _) t (List.mem_of_find?_eq_some ht) (decide_eq_true rfl) (decide_eq_true hid.symm)
    (fun s hs => by rwa [hid] at hs) fun r => if decide (r.state = .running) = true then 1 else 0
  rw [← count_eq_sumBy _ fun r => decide (r.state = .running), ← count_eq_sumBy _ fun r => decide (r.state = .running)] at hsum
  have hput : ((q.put t').runningCount : Int) = q.runningCount + ((if t'.state = .running then 1 else 0) -
      if t.state = .running then 1 else 0) := by
    simp only [decide_eq_true_eq] at hsum
    exact hsum
  by_cases hbefore : t.state = .running
  · rw [if_pos hbefore] at hput ⊢
    by_cases hafter : t'.state = .running
    · rw [if_pos hafter] at hput ⊢
      omega
    · rw [if_neg hafter] at hput ⊢
      omega
  · rw [if_neg hbefore] at hput ⊢
    by_cases hafter : t'.state = .running
    · rw [if_pos hafter] at hput ⊢
      omega
    · rw [if_neg hafter] at hput ⊢
      omega

theorem ticket?_put_self (ht : q.ticket? t.executionId = some t) (hid : t'.executionId = t.executionId) :
    (q.put t').ticket? t.executionId = some t' := by
  rw [ticket?_put, ht, Option.map_some, if_pos hid.symm, ← hid]

theorem ticket?_put_of_ne (h : id ≠ t.executionId) (q : Queue) : (q.put t).ticket? id = q.ticket? id := by
  rw [ticket?_put]
  cases hfound : q.ticket? id with
  | none => rfl
  | some r => rw [Option.map_some, if_neg (by rwa [ticket?_id hfound])]

/-- The reports a frame that waits still owes of a state. -/
def owed (f : Option Frame) (id : Text) (state : ExecState) : Nat := if f.bind Frame.owes = some (id, state) then 1 else 0

theorem owed_eq_zero {f : Option Frame} (hf : f.bind Frame.owes = none) (id : Text) (state : ExecState) : owed f id state = 0 := by
  unfold owed
  rw [hf, if_neg nofun]

theorem owed_of_owes {f : Option Frame} {id : Text} {state : ExecState} (hf : f.bind Frame.owes = some (id, state))
    (id' : Text) (s : ExecState) : owed f id' s = if id = id' ∧ state = s then 1 else 0 := by
  unfold owed
  simp only [hf, Option.some.injEq, Prod.mk.injEq]

/-! ## Segments that move no ticket, and one that does -/

/-- The segment leaves every ticket in its state. -/
structure Still (m : QueueMove) (q : Queue) (r : Segment) : Prop where
  ticket : ∀ id t, q.ticket? id = some t → ∃ t', r.1.ticket? id = some t' ∧ t'.state = t.state
  running : r.1.runningCount = q.runningCount
  entries : ∀ id state, r.1.entries id state = q.entries id state
  reports : ∀ id state, r.1.reports id state + owed r.2 id state ≤ q.reports id state + owed (resumed m) id state

/-- The segment moves one ticket, and may owe the report of it. -/
structure Moves (concurrency : Nat) (t : ExecutionTicket) (state : ExecState) (q : Queue) (r : Segment) : Prop where
  ticket : q.ticket? t.executionId = some t
  legal : Legal t state
  moved : ∃ t', r.1.ticket? t.executionId = some t' ∧ t'.state = state
  others : ∀ id u, id ≠ t.executionId → q.ticket? id = some u → r.1.ticket? id = some u
  running : q.runningCount ≤ concurrency → r.1.runningCount ≤ concurrency
  entries : ∀ id s, r.1.entries id s = q.entries id s + if t.executionId = id ∧ state = s then 1 else 0
  reports : ∀ id s, r.1.reports id s + owed r.2 id s ≤ q.reports id s + if t.executionId = id ∧ state = s then 1 else 0

theorem Still.of_tickets {f : Option Frame} (hf : f.bind Frame.owes = none) (htickets : q'.tickets = q.tickets)
    (hentries : ∀ id state, q'.entries id state = q.entries id state)
    (hreports : ∀ id state, q'.reports id state ≤ q.reports id state + owed (resumed m) id state) : Still m q (q', f) where
  ticket id t ht := ⟨t, by unfold ticket? at ht ⊢; rwa [htickets], rfl⟩
  running := by unfold runningCount; rw [htickets]
  entries := hentries
  reports id state := by
    rw [owed_eq_zero hf, Nat.add_zero]
    exact hreports id state

/-- A ticket may be noted in, and the call go on or be over. -/
theorem Still.put {f : Option Frame} (hf : f.bind Frame.owes = none) (ht : q.ticket? t.executionId = some t)
    (hid : t'.executionId = t.executionId) (hstate : t'.state = t.state) (htickets : q'.tickets = (q.put t').tickets)
    (hentries : ∀ id state, q'.entries id state = q.entries id state)
    (hreports : ∀ id state, q'.reports id state = q.reports id state) : Still m q (q', f) where
  ticket id u hu := by
    have hfound : q'.ticket? id = (q.put t').ticket? id := by
      unfold ticket?
      rw [htickets]
    show ∃ u', q'.ticket? id = some u' ∧ _
    rw [hfound]
    by_cases hsame : id = t.executionId
    · subst hsame
      rw [ht] at hu
      obtain rfl := Option.some.inj hu
      exact ⟨t', ticket?_put_self ht hid, hstate⟩
    · rw [ticket?_put_of_ne (by rwa [hid])]
      exact ⟨u, hu, rfl⟩
  running := by
    have hput := runningCount_put ht hid
    rw [hstate, Nat.add_right_cancel_iff] at hput
    rw [← hput]
    show q'.tickets.count _ = (q.put t').tickets.count _
    rw [htickets]
  entries := hentries
  reports id state := by
    show q'.reports id state + _ ≤ _
    rw [owed_eq_zero hf, Nat.add_zero, hreports]
    exact Nat.le_add_right _ _

theorem Still.insert {tickets : Table ExecutionTicket} (h : q.tickets.insert? t = some tickets)
    (hstate : t.state = .queued) : Still m q ({ q with tickets := tickets }, some .enqueue) where
  ticket id u hu := by
    refine ⟨u, ?_, rfl⟩
    show tickets.rows.find? _ = _
    rw [(Table.insert?_eq_some.1 h).2, List.find?_append, show q.tickets.rows.find? _ = _ from hu, Option.some_or]
  running := by
    show tickets.rows.countP _ = q.tickets.rows.countP _
    rw [(Table.insert?_eq_some.1 h).2, List.countP_append, List.countP_singleton, hstate]
    rfl
  entries id state := rfl
  reports id state := Nat.le_add_right _ _

/-- **A ticket enters a state**, with a slot free if it is to run. -/
theorem Moves.put {f : Option Frame} (ht : q.ticket? t.executionId = some t) (hid : t'.executionId = t.executionId)
    (hlegal : Legal t t'.state) (hslot : t'.state = .running → q.runningCount < concurrency)
    (hf : f.bind Frame.owes = none ∨ f.bind Frame.owes = some (t.executionId, t'.state))
    (htickets : q'.tickets = (q.put t').tickets)
    (hentries : ∀ id s, q'.entries id s = q.entries id s + if t.executionId = id ∧ t'.state = s then 1 else 0)
    (hreports : ∀ id s, q'.reports id s = q.reports id s) : Moves concurrency t t'.state q (q', f) where
  ticket := ht
  legal := hlegal
  moved := by
    refine ⟨t', ?_, rfl⟩
    show q'.tickets.rows.find? _ = _
    rw [htickets]
    exact ticket?_put_self ht hid
  others id u hne hu := by
    show q'.tickets.rows.find? _ = _
    rw [htickets]
    exact (ticket?_put_of_ne (by rwa [hid]) q).trans hu
  running hle := by
    have hput := runningCount_put ht hid
    have hcount : q'.runningCount = (q.put t').runningCount := by
      unfold runningCount
      rw [htickets]
    show q'.runningCount ≤ concurrency
    rw [hcount]
    by_cases hrunning : t'.state = .running
    · have hfree := hslot hrunning
      rw [if_pos hrunning] at hput
      omega
    · rw [if_neg hrunning] at hput
      omega
  entries := hentries
  reports id s := by
    show q'.reports id s + owed f id s ≤ _
    rw [hreports]
    rcases hf with hf | hf
    · rw [owed_eq_zero hf]
      exact Nat.le_add_right _ _
    · rw [owed_of_owes hf]

/-- **A segment moves no ticket or one.** -/
theorem Effect.still_or_moves (h : Effect concurrency m q r) :
    Still m q r ∨ ∃ t state, Moves concurrency t state q r := by
  cases h with
  | idle f hf => exact Or.inl (.of_tickets hf.1 rfl (fun _ _ => rfl) fun _ _ => Nat.le_add_right _ _)
  | launched id f hf =>
    refine Or.inl (.of_tickets hf.1 rfl (fun _ _ => ?_) fun _ _ => ?_)
    · rw [entries_record, if_neg nofun]
      rfl
    · rw [reports_record, if_neg nofun]
      exact Nat.le_add_right _ _
  | reported event f hf hreport =>
    refine Or.inl (.of_tickets hf.1 rfl (fun _ _ => ?_) fun id state => ?_)
    · rw [entries_record, if_neg nofun]
      rfl
    · rw [reports_record, owed_of_owes hreport]
      simp only [Event.isReport, Bool.and_eq_true, decide_eq_true_eq]
      exact le_refl _
  | shipping id hresumed =>
    refine Or.inl (@Still.of_tickets _ _ _ (some (.ship id)) rfl rfl (fun _ _ => ?_) fun _ _ => ?_)
    · rw [entries_record, if_neg nofun]
      rfl
    · rw [reports_record, if_neg nofun]
      exact Nat.le_add_right _ _
  | annotated t t' f hf ht hid hstate hurl =>
    exact Or.inl (.put hf.1 ht hid hstate rfl (fun _ _ => rfl) fun _ _ => rfl)
  | enqueued t tickets hinsert hstate => exact Or.inl (.insert hinsert hstate)
  | entered t t' f ht hid hlegal hslot howes hships =>
    refine Or.inr ⟨t, t'.state, .put ht hid hlegal hslot howes rfl (fun _ _ => ?_) fun _ _ => ?_⟩
    · rw [entries_entered, entries_put]
    · rw [reports_record, if_neg nofun]
      rfl
  | failed t t' note depth ht hid hlegal hstate =>
    refine Or.inr ⟨t, t'.state, .put ht hid hlegal (fun hrunning => ?_) (Or.inr ?_) rfl (fun _ _ => ?_) fun _ _ => ?_⟩
    · rw [hstate] at hrunning
      cases hrunning
    · rw [hstate]
      rfl
    · rw [entries_entered, entries_put, entries_record, if_neg nofun, Nat.add_zero]
    · rw [reports_record, if_neg nofun, reports_put, reports_record, if_neg nofun]
      rfl
  | refused t t' hfails ht hid hqueued hstate hurl =>
    refine Or.inl (.put rfl ht hid hstate rfl (fun _ _ => ?_) fun _ _ => ?_)
    · rw [entries_put, entries_record, if_neg nofun]
      rfl
    · rw [reports_put, reports_record, if_neg nofun]
      rfl
  | completed t t' url now hm ht hid hlegal hstate hurl =>
    refine Or.inr ⟨t, t'.state, .put ht hid hlegal (fun hrunning => ?_) (Or.inr ?_) rfl (fun _ _ => ?_) fun _ _ => ?_⟩
    · rw [hstate] at hrunning
      cases hrunning
    · rw [hstate]
      rfl
    · rw [entries_entered, entries_put, entries_record, if_neg nofun, Nat.add_zero]
    · rw [reports_record, if_neg nofun, reports_put, reports_record, if_neg nofun]
      rfl
  | late t t' url now hm ht hid hlate hstate =>
    refine Or.inl (.put rfl ht hid hstate rfl (fun _ _ => ?_) fun _ _ => ?_)
    · rw [entries_put, entries_record, if_neg nofun]
      rfl
    · rw [reports_put, reports_record, if_neg nofun]
      rfl

/-! ## Runs -/

/-- The reports of a state that waiting calls still owe. -/
def owedBy (pending : Multiset Frame) (id : Text) (state : ExecState) : Nat := (pending.map fun f => owed (some f) id state).sum

theorem owedBy_add_elim (f : Option Frame) (fs : Multiset Frame) (id : Text) (state : ExecState) :
    owedBy ((f.elim 0 fun f => {f}) + fs) id state = owed f id state + owedBy fs id state := by
  unfold owedBy
  rw [Multiset.map_add, Multiset.sum_add, Nat.add_right_cancel_iff]
  cases f with
  | none => rfl
  | some f => exact Multiset.sum_singleton _

/-- No more tickets run than there are slots, and no state is reported that was not entered. -/
structure Sound (concurrency : Nat) (w : Config Queue Frame) : Prop where
  running : w.state.runningCount ≤ concurrency
  reports : ∀ id state, w.state.reports id state + owedBy w.pending id state ≤ w.state.entries id state

theorem step_sound (w : Config Queue Frame) (m : QueueMove) (h : Sound concurrency w) :
    Sound concurrency ((calls concurrency).step m w) := by
  rcases step_effect concurrency m w with hstep | ⟨fs, r, heffect, hpending, hstep⟩
  · rwa [hstep]
  · have hreports := h.reports
    simp only [hpending, owedBy_add_elim] at hreports
    rw [hstep]
    rcases heffect.still_or_moves with hstill | ⟨t, state, hmoves⟩
    · refine ⟨hstill.running.trans_le h.running, fun id s => ?_⟩
      have hsegment := hstill.reports id s
      have hbefore := hreports id s
      show r.1.reports id s + owedBy (_ + fs) id s ≤ r.1.entries id s
      rw [owedBy_add_elim, hstill.entries]
      omega
    · refine ⟨hmoves.running h.running, fun id s => ?_⟩
      have hsegment := hmoves.reports id s
      have hbefore := hreports id s
      show r.1.reports id s + owedBy (_ + fs) id s ≤ r.1.entries id s
      rw [owedBy_add_elim, hmoves.entries]
      omega

/-- A ticket over a move: it stays in its state, or enters another one once. -/
def Advances (t : ExecutionTicket) (q q' : Queue) : Prop :=
  ∃ t', q'.ticket? t.executionId = some t' ∧
    (t'.state = t.state ∧ (∀ state, q'.entries t.executionId state = q.entries t.executionId state) ∨
      Legal t t'.state ∧
        ∀ state, q'.entries t.executionId state = q.entries t.executionId state + if t'.state = state then 1 else 0)

theorem step_advances {w : Config Queue Frame} (m : QueueMove) (ht : w.state.ticket? id = some t) :
    Advances t w.state ((calls concurrency).step m w).state := by
  obtain rfl := ticket?_id ht
  rcases step_effect concurrency m w with hstep | ⟨fs, r, heffect, -, hstep⟩
  · rw [hstep]
    exact ⟨t, ht, Or.inl ⟨rfl, fun _ => rfl⟩⟩
  · rw [hstep]
    rcases heffect.still_or_moves with hstill | ⟨u, state, hmoves⟩
    · obtain ⟨t', ht', hstate⟩ := hstill.ticket _ t ht
      exact ⟨t', ht', Or.inl ⟨hstate, hstill.entries _⟩⟩
    · by_cases hid : t.executionId = u.executionId
      · have hfound := hmoves.ticket
        rw [← hid, ht] at hfound
        obtain rfl := Option.some.inj hfound
        obtain ⟨t', ht', rfl⟩ := hmoves.moved
        refine ⟨t', ht', Or.inr ⟨hmoves.legal, fun s => ?_⟩⟩
        rw [show (after fs r).state = r.1 from rfl, hmoves.entries]
        simp only [true_and]
      · refine ⟨t, hmoves.others _ t hid ht, Or.inl ⟨rfl, fun s => ?_⟩⟩
        rw [show (after fs r).state = r.1 from rfl, hmoves.entries, if_neg fun h => hid h.1.symm]
        rfl

/-- An execution without a ticket enters no state. -/
theorem step_entries_of_none {w : Config Queue Frame} (m : QueueMove) (h : w.state.ticket? id = none)
    (state : ExecState) : ((calls concurrency).step m w).state.entries id state = w.state.entries id state := by
  rcases step_effect concurrency m w with hstep | ⟨fs, r, heffect, -, hstep⟩
  · rw [hstep]
  · rw [hstep]
    show r.1.entries id state = _
    rcases heffect.still_or_moves with hstill | ⟨u, s, hmoves⟩
    · exact hstill.entries id state
    · rw [hmoves.entries, if_neg]
      · rfl
      · rintro ⟨rfl, -⟩
        rw [hmoves.ticket] at h
        cases h

/-- No state is entered from the last ones. -/
theorem Legal.not_terminal (h : Legal t state) : t.state ≠ .done ∧ t.state ≠ .failed := by
  rcases h with h | ⟨hblock, -⟩
  · constructor <;> intro hstate <;> rw [hstate] at h <;> cases h
  · unfold ExecutionTicket.isRestartInterruptedBlock at hblock
    rw [Bool.and_eq_true, decide_eq_true_eq] at hblock
    rw [hblock.1]
    exact ⟨nofun, nofun⟩

theorem run_terminal {w : Config Queue Frame} (moves : List (QueueMove))
    (ht : w.state.ticket? id = some t) (hterminal : t.state = .done ∨ t.state = .failed) :
    ∃ t', ((calls concurrency).run moves w).state.ticket? id = some t' ∧ t'.state = t.state := by
  refine run_invariant (Q := fun w => ∃ t', w.state.ticket? id = some t' ∧ t'.state = t.state) ?_
    (along_true moves w) ⟨t, ht, rfl⟩
  rintro w m - ⟨u, hu, hstate⟩
  have hadvances : Advances u w.state ((calls concurrency).step m w).state := step_advances m hu
  obtain ⟨u', hu', hcases⟩ := hadvances
  rw [ticket?_id hu] at hu'
  refine ⟨u', hu', ?_⟩
  rcases hcases with ⟨hsame, -⟩ | ⟨hlegal, -⟩
  · exact hsame.trans hstate
  · rw [← hstate] at hterminal
    rcases hterminal with hdone | hfailed
    · exact absurd hdone hlegal.not_terminal.1
    · exact absurd hfailed hlegal.not_terminal.2

/-- **Any interleaving**: there are slots for the tickets that run, each state
is reported no more often than it is entered, a move takes a ticket along a
documented transition or leaves it in its state, and the last states stay. -/
theorem queue_sound (concurrency : Nat) (initialTickets : List ExecutionTicket)
    (h : (boot initialTickets).runningCount ≤ concurrency) (moves : List (QueueMove)) :
    let w := (calls concurrency).run moves ⟨boot initialTickets, 0⟩
    w.state.runningCount ≤ concurrency ∧
      (∀ id state, w.state.reports id state ≤ w.state.entries id state) ∧
      (∀ m id t, w.state.ticket? id = some t → Advances t w.state ((calls concurrency).step m w).state) ∧
      (∀ m id, w.state.ticket? id = none → ∀ state,
        ((calls concurrency).step m w).state.entries id state = w.state.entries id state) ∧
      ∀ later id t, w.state.ticket? id = some t → t.state = .done ∨ t.state = .failed →
        ∃ t', ((calls concurrency).run later w).state.ticket? id = some t' ∧ t'.state = t.state := by
  have hsound : Sound concurrency ((calls concurrency).run moves ⟨boot initialTickets, 0⟩) :=
    run_invariant (fun w m _ hw => step_sound w m hw) (along_true moves _) ⟨h, fun _ _ => Nat.zero_le _⟩
  refine ⟨hsound.running, fun id state => ?_, fun m id t ht => step_advances m ht, fun m id hnone state => ?_, ?_⟩
  · exact (Nat.le_add_right _ _).trans (hsound.reports id state)
  · exact step_entries_of_none m hnone state
  · intro later id t ht hterminal
    exact run_terminal later ht hterminal

def runningTicket : ExecutionTicket where
  executionId := "x-1".toList
  target := "claude".toList
  context := "file the note".toList
  state := .running
  updatedAt := 0

def queuedInput : EnqueueInput where
  executionId := "x-2".toList
  target := "claude".toList
  context := "send the mail".toList

/-- A run with one slot: a second execution waits for the outcome of the first. -/
def oneSlot : List (QueueMove) :=
  [.call ⟨.enqueue queuedInput, 1⟩, .resume .enqueue ⟨.ok [], 2⟩,
    .call ⟨.reportOutcome { executionId := "x-1".toList, outward := false }, 3⟩,
    .resume (.outcome "x-1".toList .done) ⟨.ok [], 4⟩, .resume (.reportThenPump 0) ⟨.ok [], 5⟩]

theorem queue_sound_oneSlot : (boot [runningTicket]).runningCount ≤ 1 ∧
    ((calls 1).run oneSlot ⟨boot [runningTicket], 0⟩).state.runningCount ≤ 1 :=
  ⟨by decide +kernel, (queue_sound 1 [runningTicket] (by decide +kernel) oneSlot).1⟩

example : ((calls 1).run oneSlot ⟨boot [runningTicket], 0⟩).state.log =
    [.entered "x-1".toList .done, .reported { executionId := "x-1".toList, state := .done }, .entered "x-2".toList .running] := by
  decide +kernel

end Zenod.Execution
