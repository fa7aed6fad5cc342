/-
Whether a slot stays free beside queued work, under seams that fail.

`work_conserved`: in a resumed run whose failed seams leave no slot free beside
queued work, a queue that has settled is full or has nothing queued, and what
runs was launched. A failed `launch` or `ship` is caught in any case.
-/
import Zenod.Execution.Shipping

namespace Zenod.Execution

open Keyed Text Queue Interleaving

variable {q q' : Queue} {t t' : ExecutionTicket} {id : Text} {state : ExecState} {now : Int} {concurrency depth : Nat}
  {w : Config Queue Frame}

/-! ## Free slots and launches -/

def Queue.HasState (q : Queue) (id : Text) (state : ExecState) : Prop := ∃ t, q.ticket? id = some t ∧ t.state = state

/-- A slot is free beside queued work. -/
def Idle (concurrency : Nat) (q : Queue) : Prop := q.runningCount < concurrency ∧ ∃ id, q.HasState id .queued

/-- Whether a ticket's runner was launched since it last entered `running`. -/
def launchedAfter (id : Text) (launched : Bool) : Event → Bool
  | .launched i => if i = id then true else launched
  | .entered i state => if i = id ∧ state = .running then false else launched
  | _ => launched

def Queue.isLaunched (q : Queue) (id : Text) : Bool := q.log.foldl (launchedAfter id) false

/-- The ticket a frame is to launch. -/
def Frame.starts : Frame → Option Text
  | .start id _ => some id
  | .reportStart id _ => some id
  | _ => none

/-- The call has a pump before it, whatever `launch` and `ship` answer. -/
def Drives (q : Queue) : Frame → Prop
  | .enqueue | .pump _ | .blocked _ _ | .reportThenPump _ | .unblock | .fail _ _ _ => True
  | .outcome id _ => ∃ t, q.ticket? id = some t
  -- The failure of a launch is not recorded while the ticket is queued again: `fail` throws.
  | .start id _ | .reportStart id _ | .launch id _ => ∃ t, q.ticket? id = some t ∧ t.state ≠ .queued
  | .record | .approve _ | .ship _ | .complete _ _ | .reportDone => False

/-- A free slot beside queued work waits for a pump that is to come. -/
def Driven (concurrency : Nat) (w : Config Queue Frame) : Prop :=
  Idle concurrency w.state → ∃ f ∈ w.pending, Drives w.state f

/-- The frame waits for a seam whose failure is caught. -/
def Frame.isCaught : Frame → Bool
  | .launch _ _ | .ship _ => true
  | _ => false

/-- A failure of a seam that costs no pump and no launch. -/
structure Harmless (concurrency : Nat) (w : Config Queue Frame) (m : QueueMove) : Prop where
  /-- No slot is free beside queued work, or another call has a pump before it. -/
  pump : ∀ f message now, m = .resume f ⟨.error message, now⟩ → f.isCaught = false →
    Idle concurrency w.state → Drives w.state f → ∃ g ∈ w.pending.erase f, Drives w.state g
  /-- The ticket that is not launched does not run any more. -/
  launch : ∀ f message now id, m = .resume f ⟨.error message, now⟩ → f ∈ w.pending → f.starts = some id →
    ¬w.state.HasState id .running

/-! ## Segments that leave what runs and what is queued -/

def ExecState.kind (state : ExecState) : Bool × Bool := (decide (state = .running), decide (state = .queued))

/-- The same tickets run and are queued; what was launched still is. -/
structure Calm (q q' : Queue) : Prop where
  running : q'.runningCount = q.runningCount
  kind : ∀ id, (q'.ticket? id).map (·.state.kind) = (q.ticket? id).map (·.state.kind)
  launched : ∀ id, q.isLaunched id = true → q'.isLaunched id = true

theorem isLaunched_record (q : Queue) (e : Event) (id : Text) :
    (q.record e).isLaunched id = launchedAfter id (q.isLaunched id) e := by
  unfold Queue.isLaunched
  rw [record_log, List.foldl_append]
  rfl

theorem isLaunched_entered (h : state ≠ .running) (q : Queue) (i id : Text) :
    (q.record (.entered i state)).isLaunched id = q.isLaunched id := by
  rw [isLaunched_record, launchedAfter, if_neg fun hboth => h hboth.2]

theorem Calm.refl (q : Queue) : Calm q q := ⟨rfl, fun _ => rfl, fun _ h => h⟩

theorem Calm.put (ht : q.ticket? t.executionId = some t) (hid : t'.executionId = t.executionId)
    (hkind : t'.state.kind = t.state.kind) (htickets : q'.tickets = (q.put t').tickets)
    (hlaunched : ∀ id, q'.isLaunched id = q.isLaunched id) : Calm q q' where
  running := by
    have hput := runningCount_put ht hid
    have hrunning : t'.state = .running ↔ t.state = .running := by
      rw [← decide_eq_decide]
      exact congrArg Prod.fst hkind
    simp only [hrunning] at hput
    rw [Nat.add_right_cancel_iff] at hput
    rw [← hput]
    unfold runningCount
    rw [htickets]
  kind id := by
    have hfound : q'.ticket? id = (q.put t').ticket? id := by
      unfold ticket?
      rw [htickets]
    rw [hfound]
    by_cases hsame : id = t.executionId
    · rw [hsame, ticket?_put_self ht hid, ht, Option.map_some, Option.map_some, hkind]
    · rw [ticket?_put_of_ne (by rwa [hid])]
  launched id h := (hlaunched id).trans h

theorem Calm.hasState (h : Calm q q') (hstate : state = .running ∨ state = .queued) :
    q'.HasState id state ↔ q.HasState id state := by
  have hiff : ∀ s s' : ExecState, s.kind = s'.kind → (s = state ↔ s' = state) := by
    intro s s' hkind
    rcases hstate with rfl | rfl
    · rw [← decide_eq_decide]
      exact congrArg Prod.fst hkind
    · rw [← decide_eq_decide]
      exact congrArg Prod.snd hkind
  have hkind := h.kind id
  unfold Queue.HasState
  cases hbefore : q.ticket? id with
  | none =>
    rw [hbefore, Option.map_none, Option.map_eq_none_iff] at hkind
    rw [hkind]
  | some t =>
    rw [hbefore, Option.map_some, Option.map_eq_some_iff] at hkind
    obtain ⟨t', ht', heq⟩ := hkind
    rw [ht']
    simp only [Option.some.injEq, exists_eq_left']
    exact hiff _ _ heq

theorem Calm.idle (h : Calm q q') : Idle concurrency q' ↔ Idle concurrency q := by
  unfold Idle
  rw [h.running]
  simp only [h.hasState (Or.inr rfl)]

theorem Calm.drives (h : Calm q q') {f : Frame} (hf : Drives q f) : Drives q' f := by
  have hfound : ∀ {id t}, q.ticket? id = some t → ∃ t', q'.ticket? id = some t' ∧ (t'.state = .queued ↔ t.state = .queued) := by
    intro id t ht
    have hkind := h.kind id
    rw [ht, Option.map_some, Option.map_eq_some_iff] at hkind
    obtain ⟨t', ht', heq⟩ := hkind
    refine ⟨t', ht', ?_⟩
    rw [← decide_eq_decide]
    exact congrArg Prod.snd heq
  have hopen : ∀ {id}, (∃ t, q.ticket? id = some t ∧ t.state ≠ .queued) → ∃ t, q'.ticket? id = some t ∧ t.state ≠ .queued := by
    rintro id ⟨t, ht, hstate⟩
    obtain ⟨t', ht', hiff⟩ := hfound ht
    exact ⟨t', ht', fun hqueued => hstate (hiff.1 hqueued)⟩
  cases f with
  | outcome id state =>
    obtain ⟨t, ht⟩ := hf
    obtain ⟨t', ht', -⟩ := hfound ht
    exact ⟨t', ht'⟩
  | start id depth => exact hopen hf
  | reportStart id depth => exact hopen hf
  | launch id depth => exact hopen hf
  | record => exact hf
  | approve => exact hf
  | ship => exact hf
  | complete => exact hf
  | reportDone => exact hf
  | _ => trivial

/-! ## What a segment does to slots and launches -/

variable {m : QueueMove}

inductive Turn (concurrency : Nat) (m : QueueMove) (q : Queue) : Segment → Prop
  | calm {q' : Queue} {next : Option Frame} (h : Calm q q')
    (hdrives : ∀ f, resumed m = some f → Drives q f → ∃ g, next = some g ∧ Drives q' g)
    (hstarts : ∀ f id, resumed m = some f → f.starts = some id → next.bind Frame.starts = some id ∨ q'.isLaunched id = true) :
    Turn concurrency m q (q', next)
  /-- A pump that finds no slot or nothing queued. -/
  | full {next : Option Frame} (h : ¬Idle concurrency q) (hstarts : (resumed m).bind Frame.starts = none) :
    Turn concurrency m q (q, next)
  | started {t t' : ExecutionTicket} {depth : Nat} (ht : q.ticket? t.executionId = some t) (hid : t'.executionId = t.executionId)
    (hstate : t'.state = .running) (hstarts : (resumed m).bind Frame.starts = none) :
    Turn concurrency m q ((q.put t').record (.entered t.executionId .running), some (.start t.executionId depth))
  /-- A ticket is queued or leaves its slot, with a pump before the call. -/
  | moved {q' : Queue} {next : Frame} (hdrives : Drives q' next) (hrunning : ∀ id, q'.HasState id .running → q.HasState id .running)
    (hlaunched : ∀ id, q'.isLaunched id = q.isLaunched id) (hstarts : (resumed m).bind Frame.starts = none) :
    Turn concurrency m q (q', some next)
  /-- A seam has failed, and so the call. -/
  | dropped {f : Frame} {message : Text} {now : Int} (hm : m = .resume f ⟨.error message, now⟩) (hf : f.isCaught = false) :
    Turn concurrency m q (q, none)

/-- Nothing happens, and no pump is lost. -/
theorem Turn.still {next : Option Frame} (hdrives : ∀ f, resumed m = some f → Drives q f → ∃ g, next = some g ∧ Drives q g)
    (hstarts : (resumed m).bind Frame.starts = none) : Turn concurrency m q (q, next) := by
  refine .calm (.refl q) hdrives fun f id hf hid => ?_
  rw [hf] at hstarts
  exact absurd (hstarts.symm.trans hid) nofun

theorem nextQueued_none (h : q.nextQueued = none) (id : Text) : ¬q.HasState id .queued := by
  rintro ⟨t, ht, hstate⟩
  unfold nextQueued at h
  rw [List.head?_eq_none_iff] at h
  have hmem : t ∈ (q.tickets.rows.filter (·.state = .queued)).insertionSort fun a b => a.updatedAt ≤ b.updatedAt := by
    rw [List.mem_insertionSort, List.mem_filter]
    exact ⟨List.mem_of_find?_eq_some ht, decide_eq_true hstate⟩
  rw [h] at hmem
  cases hmem

/-- **A pump** leaves no slot free beside queued work, or starts a ticket. -/
theorem pump_cases (concurrency depth : Nat) (now : Int) (q : Queue) :
    (¬Idle concurrency q ∧ ∃ next, q.pump concurrency depth now = (q, next)) ∨
      ∃ t t', q.ticket? t.executionId = some t ∧ t'.executionId = t.executionId ∧ t'.state = .running ∧
        q.pump concurrency depth now =
          ((q.put t').record (.entered t.executionId .running), some (.start t.executionId depth)) := by
  unfold pump
  split
  next hslot =>
    split
    next hnone => exact Or.inl ⟨fun hidle => hidle.2.elim fun id hid => nextQueued_none hnone id hid, _, rfl⟩
    next t hnext =>
      obtain ⟨ht, hqueued⟩ := nextQueued_eq_some hnext
      have hmem : ExecState.running ∈ transitions t.state := by
        rw [hqueued]
        decide
      obtain ⟨t', hid, hstate, -, heq⟩ := transition_put hmem now (.start t.executionId depth) q
      rw [put_self ht] at heq
      exact Or.inr ⟨t, t', ht, hid, hstate, heq⟩
  next hslot => exact Or.inl ⟨fun hidle => hslot hidle.1, _, rfl⟩

theorem pump_turn (hstarts : (resumed m).bind Frame.starts = none) (depth : Nat) (now : Int) :
    Turn concurrency m q (q.pump concurrency depth now) := by
  rcases pump_cases concurrency depth now q with ⟨hidle, next, heq⟩ | ⟨t, t', ht, hid, hstate, heq⟩
  · rw [heq]
    exact .full hidle hstarts
  · rw [heq]
    exact .started ht hid hstate hstarts

/-- A pump that is called is driven by itself. -/
theorem pump_driven (depth : Nat) (now : Int) (fs : Multiset Frame) :
    Driven concurrency (after fs (q.pump concurrency depth now)) := by
  rcases pump_cases concurrency depth now q with ⟨hidle, next, heq⟩ | ⟨t, t', ht, hid, hstate, heq⟩
  · rw [heq]
    exact fun hidle' => absurd hidle' hidle
  · rw [heq]
    refine fun _ => ⟨.start t.executionId depth, ?_, t', ticket?_put_self ht hid, by rw [hstate]; decide⟩
    rw [after_some]
    exact Multiset.mem_cons_self _ _

theorem hasState_put (hstate : t'.state ≠ state) (h : (q.put t').HasState id state) : q.HasState id state := by
  obtain ⟨u, hu, hustate⟩ := h
  rw [ticket?_put] at hu
  obtain ⟨r, hr, rfl⟩ := Option.map_eq_some_iff.1 hu
  split at hustate
  next => exact absurd hustate hstate
  next => exact ⟨r, hr, hustate⟩

theorem ticket?_congr (h : q'.tickets = q.tickets) : q'.ticket? = q.ticket? := by
  funext id
  unfold ticket?
  rw [h]

section Transition

variable {noted : ExecutionTicket} {next : Frame} (htickets : q'.tickets = q.tickets)
  (hlog : ∀ id, q'.isLaunched id = q.isLaunched id) (ht : q.ticket? t.executionId = some t)
  (hid : noted.executionId = t.executionId)

include htickets hlog ht hid

/-- A ticket leaves its slot, or is queued. -/
theorem transition_moved (hmem : state ∈ transitions noted.state) (hstate : state ≠ .running)
    (hdrives : ∀ q, (∃ u, q.ticket? t.executionId = some u) → Drives q next)
    (hstarts : (resumed m).bind Frame.starts = none) (now : Int) :
    Turn concurrency m q (transition noted state now next (q'.put noted)) := by
  obtain ⟨t', hid', hstate', -, heq⟩ := transition_put hmem now next q'
  have htid : t'.executionId = t.executionId := hid'.trans hid
  have hsame := ticket?_congr htickets
  rw [heq]
  refine .moved (hdrives _ ⟨t', ?_⟩) (fun id hrunning => ?_) (fun id => ?_) hstarts
  · rw [ticket?_record, ticket?_put_self (hsame ▸ ht) htid]
  · have hbefore : q'.HasState id .running := hasState_put (by rwa [hstate']) hrunning
    unfold Queue.HasState at hbefore ⊢
    rwa [hsame] at hbefore
  · rw [isLaunched_entered hstate]
    exact hlog id

/-- A ticket that neither runs nor is queued moves on. -/
theorem transition_calm (hmem : state ∈ transitions noted.state) (hkind : state.kind = t.state.kind) (hstate : state ≠ .running)
    (hdrives : ∀ f, resumed m = some f → ¬Drives q f) (hstarts : (resumed m).bind Frame.starts = none) (now : Int) :
    Turn concurrency m q (transition noted state now next (q'.put noted)) := by
  obtain ⟨t', hid', hstate', -, heq⟩ := transition_put hmem now next q'
  rw [heq]
  refine .calm (.put ht (hid'.trans hid) (by rw [hstate', hkind]) ?_ fun id => ?_)
    (fun f hf hdrive => absurd hdrive (hdrives f hf)) fun f id hf hid => ?_
  · show replace q'.tickets t' = replace q.tickets t'
    rw [htickets]
  · rw [isLaunched_entered hstate]
    exact hlog id
  · rw [hf] at hstarts
    exact absurd (hstarts.symm.trans hid) nofun

end Transition

/-- **`fail` loses no pump**, if its ticket is not queued. -/
theorem fail_turn (hopen : ∀ f, resumed m = some f → Drives q f → depth ≠ 0 ∧ ∃ t, q.ticket? id = some t ∧ t.state ≠ .queued)
    (hstarts : (resumed m).bind Frame.starts = none) (note : Option Text) (now : Int) :
    Turn concurrency m q (q.fail id note depth now) := by
  unfold fail
  split
  next hnone =>
    refine .still (fun f hf hdrive => ?_) hstarts
    obtain ⟨-, t, ht, -⟩ := hopen f hf hdrive
    rw [hnone] at ht
    cases ht
  next t ht =>
    split
    next =>
      refine .still (fun f hf hdrive => ?_) hstarts
      rw [if_neg (hopen f hf hdrive).1]
      exact ⟨_, rfl, trivial⟩
    next hlive =>
      rw [not_or] at hlive
      obtain rfl := ticket?_id ht
      simp only []
      generalize hnoted : ({ t with note := note.or t.note } : ExecutionTicket) = noted
      have hnid : noted.executionId = t.executionId := by rw [← hnoted]
      have hnstate : noted.state = t.state := by rw [← hnoted]
      have hlog : ∀ id, (q.record (.failing t.executionId)).isLaunched id = q.isLaunched id := isLaunched_record q _
      by_cases hmem : ExecState.failed ∈ transitions noted.state
      · refine @transition_moved q (q.record (.failing t.executionId)) t .failed concurrency m noted (.fail t.executionId note depth) rfl hlog
          ht hnid hmem (by decide) ?_ hstarts now
        exact fun _ _ => trivial
      · rw [transition_of_not_mem hmem]
        have hqueued : t.state = .queued := by
          rw [hnstate] at hmem
          cases hstate : t.state with
          | queued => rfl
          | done => exact absurd hstate hlive.1
          | failed => exact absurd hstate hlive.2
          | _ =>
            rw [hstate] at hmem
            exact absurd (by decide) hmem
        refine .calm (.put ht hnid (by rw [hnstate]) rfl hlog) (fun f hf hdrive => ?_) fun f id hf hid => ?_
        · obtain ⟨-, u, hu, hustate⟩ := hopen f hf hdrive
          rw [ht] at hu
          exact absurd (Option.some.inj hu ▸ hqueued) hustate
        · rw [hf] at hstarts
          exact absurd (hstarts.symm.trans hid) nofun

/-! ## First segments -/

/-- **A first segment** leaves no slot free beside queued work with no pump before a call. -/
theorem start_turn (concurrency : Nat) (c : Call) (q : Queue) : Turn concurrency (.call c) q (start concurrency c q) := by
  have hstill : ∀ next, Turn concurrency (.call c) q (q, next) := fun next => .still (fun f hf => nomatch hf) rfl
  obtain ⟨request, now⟩ := c
  cases request with
  | enqueue input =>
    show Turn concurrency _ q (q.enqueue input now)
    unfold enqueue
    split
    next => exact hstill none
    next tickets hinsert =>
      refine .moved trivial (fun id hrunning => ?_) (fun _ => rfl) rfl
      obtain ⟨t, ht, hstate⟩ := hrunning
      have hfind : tickets.rows.find? (·.executionId = id) = some t := ht
      rw [(Table.insert?_eq_some.1 hinsert).2, List.find?_append, Option.or_eq_some_iff] at hfind
      rcases hfind with hfind | ⟨-, hnew⟩
      · exact ⟨t, hfind, hstate⟩
      · obtain rfl := List.mem_singleton.1 (List.mem_of_find?_eq_some hnew)
        cases hstate
  | reportOutcome input =>
    show Turn concurrency _ q (q.reportOutcome input now)
    unfold reportOutcome
    split
    next => exact hstill none
    next t ht =>
      simp only []
      generalize hrestarted :
        (if t.isRestartInterruptedBlock = true then { t with state := .running, note := none } else t) = restarted
      split
      next => exact hstill none
      next hrunning =>
        rw [ne_eq, not_not] at hrunning
        have hrid : restarted.executionId = t.executionId := by
          rw [← hrestarted]
          split <;> rfl
        have hended : (if input.outward = true then ExecState.needsReview else ExecState.done) ∈ transitions restarted.state ∧
            (if input.outward = true then ExecState.needsReview else ExecState.done) ≠ .running := by
          rw [hrunning]
          cases input.outward <;> decide
        refine transition_moved rfl (fun _ => rfl) (ticket?_self ht) ?_ ?_ hended.2 (fun q' hq' => ?_) rfl now
        · exact hrid
        · exact hended.1
        · show ∃ u, q'.ticket? restarted.executionId = some u
          rwa [hrid]
  | recordProgress input =>
    show Turn concurrency _ q (q.recordProgress input now)
    unfold recordProgress
    split
    next => exact hstill none
    next t ht =>
      split
      next => exact hstill none
      next =>
        refine .calm (@Calm.put q _ t _ (ticket?_self ht) ?_ ?_ rfl fun _ => rfl) nofun nofun
        · rfl
        · rfl
  | recordTranscriptUrl id url =>
    show Turn concurrency _ q (q.recordTranscriptUrl id url now)
    unfold recordTranscriptUrl
    split
    next => exact hstill none
    next t ht =>
      refine .calm (@Calm.put q _ t _ (ticket?_self ht) ?_ ?_ rfl fun _ => rfl) nofun nofun
      · rfl
      · rfl
  | reportBlocked id note =>
    show Turn concurrency _ q (q.reportBlocked id note now)
    unfold reportBlocked
    split
    next => exact hstill none
    next t ht =>
      split
      next => exact hstill none
      next hrunning =>
        rw [ne_eq, not_not] at hrunning
        refine transition_moved rfl (fun _ => rfl) (ticket?_self ht) ?_ ?_ (by decide) ?_ rfl now
        · rfl
        · show ExecState.blocked ∈ transitions t.state
          rw [hrunning]
          decide
        · exact fun _ _ => trivial
  | approve id finalContent =>
    show Turn concurrency _ q (q.approve id finalContent now)
    unfold approve
    split
    next => exact hstill none
    next t ht =>
      split
      next => exact hstill none
      next =>
        split
        next => exact hstill none
        next hreview =>
          rw [ne_eq, not_not] at hreview
          refine transition_calm rfl (fun _ => rfl) (ticket?_self ht) ?_ ?_ ?_ (by decide) ?_ rfl now
          · rfl
          · show ExecState.approved ∈ transitions t.state
            rw [hreview]
            decide
          · rw [hreview]
            rfl
          · exact nofun
  | unblock id guidance =>
    show Turn concurrency _ q (q.unblock id guidance now)
    unfold unblock
    split
    next => exact hstill none
    next t ht =>
      split
      next => exact hstill none
      next hblocked =>
        rw [ne_eq, not_not] at hblocked
        have hmem : ExecState.queued ∈ transitions t.state := by
          rw [hblocked]
          decide
        cases guidance.filter (· ≠ []) with
        | none =>
          refine transition_moved rfl (fun _ => rfl) (ticket?_self ht) ?_ ?_ (by decide) ?_ rfl now
          · rfl
          · exact hmem
          · exact fun _ _ => trivial
        | some guidance =>
          refine transition_moved rfl (fun _ => rfl) (ticket?_self ht) ?_ ?_ (by decide) ?_ rfl now
          · rfl
          · exact hmem
          · exact fun _ _ => trivial
  | resume => exact pump_turn rfl 0 now
  | fail id note =>
    show Turn concurrency _ q (q.fail id note 0 now)
    refine fail_turn (fun f hf => ?_) rfl note now
    cases hf

/-! ## Further segments -/

/-- A ticket that is to be shipped, or was. -/
def Queue.IsShipped (q : Queue) (id : Text) : Prop :=
  ∃ t, q.ticket? id = some t ∧ (t.state = .approved ∨ t.state = .done ∨ t.state = .failed)

theorem kind_of_shipped (h : t.state = .approved ∨ t.state = .done ∨ t.state = .failed) :
    ExecState.done.kind = t.state.kind := by
  rcases h with h | h | h <;> rw [h] <;> rfl

theorem ship_turn {value : Text} (hshipped : q.IsShipped id) :
    Turn concurrency (.resume (.ship id) ⟨.ok value, now⟩) q (q.resolved concurrency (.ship id) value now) := by
  obtain ⟨t, ht, hstate⟩ := hshipped
  have hnot : ∀ f, resumed (.resume (.ship id) ⟨.ok value, now⟩) = some f → ¬Drives q f := by
    intro f hf
    cases hf
    exact False.elim
  unfold resolved
  simp only [ht]
  obtain rfl := ticket?_id ht
  have hlog : ∀ i, (q.record (.shipped t.executionId value)).isLaunched i = q.isLaunched i := isLaunched_record q _
  by_cases hmem : ExecState.done ∈ transitions t.state
  · refine @transition_calm q (q.record (.shipped t.executionId value)) t .done concurrency _ _ _ rfl hlog ht ?_ ?_
      (kind_of_shipped hstate) (by decide) hnot rfl now
    · rfl
    · exact hmem
  · rw [transition_of_not_mem (by exact hmem)]
    refine .calm (@Calm.put q _ t _ ht ?_ ?_ rfl hlog) (fun f hf hdrive => absurd hdrive (hnot f hf)) fun f i hf hi => ?_
    · rfl
    · rfl
    · cases hf
      cases hi

/-- **A further segment** does so as well, if the seam that failed is harmless. -/
theorem resume_turn (concurrency : Nat) (f : Frame) (r : Reply) (q : Queue)
    (hships : ∀ id, f.ships = some id → q.IsShipped id) :
    Turn concurrency (.resume f r) q (Queue.resume concurrency f r q) := by
  have hnone : f.starts = none → (resumed (.resume f r)).bind Frame.starts = none := fun h => h
  obtain ⟨result, now⟩ := r
  cases result with
  | error message =>
    cases f with
    | launch id depth =>
      refine fail_turn (fun f hf hdrive => ?_) rfl _ now
      cases hf
      exact ⟨Nat.succ_ne_zero depth, hdrive⟩
    | ship id =>
      refine fail_turn (fun f hf hdrive => ?_) rfl _ now
      cases hf
      exact False.elim hdrive
    | _ => exact .dropped rfl rfl
  | ok value =>
    cases f with
    | enqueue => exact pump_turn rfl 0 now
    | record => exact .still (fun f hf hdrive => by cases hf; exact False.elim hdrive) rfl
    | start id depth =>
      refine .calm ⟨rfl, fun _ => rfl, fun i hi => (isLaunched_record q _ i).trans hi⟩ (fun f hf hdrive => ?_) fun f i hf hi => ?_
      · cases hf
        exact ⟨_, rfl, hdrive⟩
      · cases hf
        exact Or.inl hi
    | reportStart id depth =>
      refine .calm ⟨rfl, fun _ => rfl, fun i hi => ?_⟩ (fun f hf hdrive => ?_) fun f i hf hi => ?_
      · rw [isLaunched_record, launchedAfter, hi, ite_self]
      · cases hf
        exact ⟨_, rfl, hdrive⟩
      · cases hf
        refine Or.inr ?_
        rw [isLaunched_record, launchedAfter, if_pos (Option.some.inj hi)]
    | launch id depth => exact pump_turn rfl depth now
    | pump depth => exact pump_turn rfl depth now
    | outcome id state =>
      show Turn concurrency _ q (q.resolved concurrency (.outcome id state) value now)
      unfold resolved
      simp only []
      split
      next hmissing =>
        refine .still (fun f hf hdrive => ?_) rfl
        cases hf
        obtain ⟨t, ht⟩ := hdrive
        rw [hmissing] at ht
        cases ht
      next t ht => exact .moved trivial (fun _ hrunning => hrunning) (isLaunched_record q _) rfl
    | blocked id note => exact .moved trivial (fun _ hrunning => hrunning) (isLaunched_record q _) rfl
    | reportThenPump depth => exact pump_turn rfl depth now
    | approve id =>
      refine .calm ⟨rfl, fun _ => rfl, fun i hi => (isLaunched_record q _ i).trans hi⟩ (fun f hf hdrive => ?_) fun f i hf hi => ?_
      · cases hf
        exact False.elim hdrive
      · cases hf
        cases hi
    | ship id => exact ship_turn (hships id rfl)
    | complete id url =>
      refine .calm ⟨rfl, fun _ => rfl, fun i hi => (isLaunched_record q _ i).trans hi⟩ (fun f hf hdrive => ?_) fun f i hf hi => ?_
      · cases hf
        exact False.elim hdrive
      · cases hf
        cases hi
    | reportDone => exact .still (fun f hf hdrive => by cases hf; exact False.elim hdrive) rfl
    | unblock => exact pump_turn rfl 0 now
    | fail id note depth => exact .moved trivial (fun _ hrunning => hrunning) (isLaunched_record q _) rfl

/-! ## Runs -/

/-- What a queue keeps that conserves its work. -/
structure Working (concurrency : Nat) (w : Config Queue Frame) : Prop where
  launched : ∀ id, w.state.HasState id .running → w.state.isLaunched id = true ∨ ∃ f ∈ w.pending, f.starts = some id
  shipped : ∀ f ∈ w.pending, ∀ id, f.ships = some id → w.state.IsShipped id

theorem step_turn (m : QueueMove) (h : Working concurrency w) :
    (calls concurrency).step m w = w ∨ ∃ fs r, Turn concurrency m w.state r ∧
      w.pending = ((resumed m).elim 0 fun f => {f}) + fs ∧ (calls concurrency).step m w = after fs r := by
  rcases step_cases (o := calls concurrency) m w with ⟨c, rfl, hstep⟩ | ⟨f, r, fs, rfl, hpending, hstep⟩ | hstep
  · exact Or.inr ⟨w.pending, _, start_turn concurrency c w.state, (zero_add w.pending).symm, hstep⟩
  · refine Or.inr ⟨fs, _, resume_turn concurrency f r w.state (h.shipped f ?_), hpending, hstep⟩
    rw [hpending]
    exact Multiset.mem_cons_self f fs
  · exact Or.inl hstep

theorem mem_pending {f : Frame} {fs : Multiset Frame} (hpending : w.pending = ((resumed m).elim 0 fun f => {f}) + fs)
    (hf : f ∈ w.pending) : resumed m = some f ∨ f ∈ fs := by
  rw [hpending, Multiset.mem_add] at hf
  refine hf.imp_left fun hf => ?_
  cases hm : resumed m with
  | none =>
    rw [hm] at hf
    exact absurd hf (Multiset.notMem_zero f)
  | some g =>
    rw [hm] at hf
    rw [Multiset.mem_singleton.1 hf]

theorem mem_after_next {f : Frame} {fs : Multiset Frame} {r : Segment} (h : r.2 = some f) : f ∈ (after fs r).pending := by
  show f ∈ (r.2.elim 0 fun f => {f}) + fs
  rw [h]
  exact Multiset.mem_add.2 (Or.inl (Multiset.mem_singleton_self f))

theorem mem_after {f : Frame} {fs : Multiset Frame} (h : f ∈ fs) (r : Segment) : f ∈ (after fs r).pending :=
  Multiset.mem_add.2 (Or.inr h)

theorem step_driven (hharmless : Harmless concurrency w m) (hworking : Working concurrency w) (h : Driven concurrency w) :
    Driven concurrency ((calls concurrency).step m w) := by
  rcases step_turn m hworking with hstep | ⟨fs, r, hturn, hpending, hstep⟩
  · rwa [hstep]
  rw [hstep]
  cases hturn with
  | calm hcalm hdrives hstarts =>
    intro hidle
    obtain ⟨f, hf, hdrive⟩ := h (hcalm.idle.1 hidle)
    rcases mem_pending hpending hf with hf | hf
    · obtain ⟨g, hg, hgdrive⟩ := hdrives f hf hdrive
      exact ⟨g, mem_after_next hg, hgdrive⟩
    · exact ⟨f, mem_after hf _, hcalm.drives hdrive⟩
  | full hidle hstarts => exact fun hidle' => absurd hidle' hidle
  | @started t t' depth ht hid hstate hstarts =>
    refine fun _ => ⟨.start t.executionId depth, mem_after_next rfl, t', ticket?_put_self ht hid, ?_⟩
    rw [hstate]
    decide
  | moved hdrives hrunning hlaunched hstarts => exact fun _ => ⟨_, mem_after_next rfl, hdrives⟩
  | @dropped f message now hm hf =>
    intro hidle
    have hfs : w.pending.erase f = fs := by
      rw [hpending, hm]
      exact Multiset.erase_cons_head f fs
    by_cases hdrive : Drives w.state f
    · obtain ⟨g, hg, hgdrive⟩ := hharmless.pump f message now hm hf hidle hdrive
      rw [hfs] at hg
      exact ⟨g, mem_after hg _, hgdrive⟩
    · obtain ⟨g, hg, hgdrive⟩ := h hidle
      rcases mem_pending hpending hg with hg | hg
      · rw [hm] at hg
        obtain rfl := Option.some.inj hg
        exact absurd hgdrive hdrive
      · exact ⟨g, mem_after hg _, hgdrive⟩

/-- A ticket that is to be shipped now was so before, or is approved. -/
theorem Effect.isShipped {r : Segment} (h : Effect concurrency m q r) (hships : r.2.bind Frame.ships = some id) :
    (resumed m).bind Frame.ships = some id ∨ r.1.IsShipped id := by
  cases h with
  | entered t t' f ht hid hlegal hslot howes hf =>
    rcases hf with hf | ⟨hf, hreview⟩
    · exact absurd (hf.symm.trans hships) nofun
    · have hsame : some t.executionId = some id := hf.symm.trans hships
      rw [← Option.some.inj hsame]
      refine Or.inr ⟨t', ticket?_put_self ht hid, ?_⟩
      rcases hlegal with hlegal | ⟨hblock, -⟩
      · rw [hreview, transitions, List.mem_cons, List.mem_singleton] at hlegal
        exact hlegal.imp_right Or.inr
      · unfold ExecutionTicket.isRestartInterruptedBlock at hblock
        rw [hreview] at hblock
        cases hblock
  | idle f hf => exact absurd (hf.2.symm.trans hships) nofun
  | launched _ f hf => exact absurd (hf.2.symm.trans hships) nofun
  | reported _ f hf => exact absurd (hf.2.symm.trans hships) nofun
  | shipping _ hm =>
    rw [hm]
    exact Or.inl hships
  | annotated _ _ f hf => exact absurd (hf.2.symm.trans hships) nofun
  | enqueued => cases hships
  | failed => cases hships
  | refused => cases hships
  | completed => cases hships
  | late => cases hships

/-- What is to be shipped is approved, or has ended since. -/
theorem step_shipped (m : QueueMove) (h : ∀ f ∈ w.pending, ∀ id, f.ships = some id → w.state.IsShipped id) :
    ∀ f ∈ ((calls concurrency).step m w).pending, ∀ id, f.ships = some id →
      ((calls concurrency).step m w).state.IsShipped id := by
  have hkept : ∀ id, w.state.IsShipped id → ((calls concurrency).step m w).state.IsShipped id := by
    rintro id ⟨t, ht, hstate⟩
    have hadvances : Advances t w.state ((calls concurrency).step m w).state := step_advances m ht
    obtain ⟨t', ht', hcases⟩ := hadvances
    rw [ticket?_id ht] at ht'
    refine ⟨t', ht', ?_⟩
    rcases hcases with ⟨hsame, -⟩ | ⟨hlegal, -⟩
    · rwa [hsame]
    · exact Or.inr (hlegal.from_shipped hstate)
  intro f hf id hships
  rcases step_effect concurrency m w with hstep | ⟨fs, r, heffect, hpending, hstep⟩
  · rw [hstep] at hf ⊢
    exact h f hf id hships
  rw [hstep] at hf
  rcases Multiset.mem_add.1 hf with hnew | hold
  · have hframe : r.2 = some f := by
      cases hr : r.2 with
      | none =>
        rw [hr] at hnew
        cases hnew
      | some g =>
        rw [hr] at hnew
        rw [Multiset.mem_singleton.1 hnew]
    have hships' : r.2.bind Frame.ships = some id := by rwa [hframe]
    rcases heffect.isShipped hships' with hbefore | hshipped
    · obtain ⟨g, hg, hgships⟩ := Option.bind_eq_some_iff.1 hbefore
      refine hkept id (h g ?_ id hgships)
      rw [hpending, hg]
      exact Multiset.mem_add.2 (Or.inl (Multiset.mem_singleton_self g))
    · rw [hstep]
      exact hshipped
  · refine hkept id (h f ?_ id hships)
    rw [hpending]
    exact Multiset.mem_add.2 (Or.inr hold)

theorem step_launched (hharmless : Harmless concurrency w m) (h : Working concurrency w) :
    ∀ id, ((calls concurrency).step m w).state.HasState id .running →
      ((calls concurrency).step m w).state.isLaunched id = true ∨
        ∃ f ∈ ((calls concurrency).step m w).pending, f.starts = some id := by
  rcases step_turn m h with hstep | ⟨fs, r, hturn, hpending, hstep⟩
  · rw [hstep]
    exact h.launched
  rw [hstep]
  intro id hrunning
  cases hturn with
  | calm hcalm hdrives hstarts =>
    rcases h.launched id ((hcalm.hasState (Or.inl rfl)).1 hrunning) with hlaunched | ⟨f, hf, hid⟩
    · exact Or.inl (hcalm.launched id hlaunched)
    · rcases mem_pending hpending hf with hf | hf
      · rcases hstarts f id hf hid with hnext | hlaunched
        · obtain ⟨g, hg, hgid⟩ := Option.bind_eq_some_iff.1 hnext
          exact Or.inr ⟨g, mem_after_next hg, hgid⟩
        · exact Or.inl hlaunched
      · exact Or.inr ⟨f, mem_after hf _, hid⟩
  | full hidle hstarts =>
    refine (h.launched id hrunning).imp_right fun ⟨f, hf, hid⟩ => ?_
    rcases mem_pending hpending hf with hf | hf
    · rw [hf] at hstarts
      exact absurd (hstarts.symm.trans hid) nofun
    · exact ⟨f, mem_after hf _, hid⟩
  | @started t t' depth ht hid' hstate hstarts =>
    by_cases hsame : id = t.executionId
    · exact Or.inr ⟨.start t.executionId depth, mem_after_next rfl, by rw [hsame]; rfl⟩
    · obtain ⟨u, hu, hustate⟩ := hrunning
      have hu : (w.state.put t').ticket? id = some u := hu
      rw [ticket?_put_of_ne (by rwa [hid'])] at hu
      refine (h.launched id ⟨u, hu, hustate⟩).imp (fun hlaunched => ?_) fun ⟨f, hf, hid⟩ => ?_
      · show (Queue.record _ _).isLaunched id = true
        rw [isLaunched_record, launchedAfter, if_neg fun hboth => hsame hboth.1.symm]
        exact hlaunched
      · rcases mem_pending hpending hf with hf | hf
        · rw [hf] at hstarts
          exact absurd (hstarts.symm.trans hid) nofun
        · exact ⟨f, mem_after hf _, hid⟩
  | moved hdrives hrunning' hlaunched' hstarts =>
    refine (h.launched id (hrunning' id hrunning)).imp (fun hlaunched => (hlaunched' id).trans hlaunched) fun ⟨f, hf, hid⟩ => ?_
    rcases mem_pending hpending hf with hf | hf
    · rw [hf] at hstarts
      exact absurd (hstarts.symm.trans hid) nofun
    · exact ⟨f, mem_after hf _, hid⟩
  | @dropped f message now hm hf =>
    refine (h.launched id hrunning).imp_right fun ⟨g, hg, hid⟩ => ?_
    rcases mem_pending hpending hg with hgm | hg'
    · rw [hm] at hgm
      obtain rfl := Option.some.inj hgm
      exact absurd hrunning (hharmless.launch _ message now id hm hg hid)
    · exact ⟨g, mem_after hg' _, hid⟩

theorem step_working (hharmless : Harmless concurrency w m) (h : Working concurrency w) :
    Working concurrency ((calls concurrency).step m w) :=
  ⟨step_launched hharmless h, step_shipped m h.shipped⟩

theorem mem_foldl_restore {tickets : List ExecutionTicket} {table : Table ExecutionTicket} {t : ExecutionTicket}
    (h : t ∈ (tickets.foldl restore table).rows) : t.state ∈ (table.rows ++ tickets).map (·.state) := by
  induction tickets generalizing table with
  | nil =>
    rw [List.append_nil]
    exact List.mem_map_of_mem h
  | cons u tickets ih =>
    have hmem := ih h
    rw [List.map_append, List.mem_append] at hmem
    rw [List.map_append, List.mem_append, List.map_cons, List.mem_cons]
    refine hmem.elim (fun hmem => ?_) fun hmem => Or.inr (Or.inr hmem)
    obtain ⟨r, hr, hstate⟩ := List.mem_map.1 hmem
    unfold restore at hr
    cases hinsert : table.insert? u with
    | some table' =>
      rw [hinsert, Option.getD_some, (Table.insert?_eq_some.1 hinsert).2, List.mem_append, List.mem_singleton] at hr
      rcases hr with hr | rfl
      · exact Or.inl (List.mem_map.2 ⟨r, hr, hstate⟩)
      · exact Or.inr (Or.inl hstate.symm)
    | none =>
      rw [hinsert, Option.getD_none] at hr
      obtain ⟨r', hr', rfl⟩ := List.mem_map.1 (show r ∈ table.rows.map _ from hr)
      split at hstate
      next => exact Or.inr (Or.inl hstate.symm)
      next => exact Or.inl (List.mem_map.2 ⟨r', hr', hstate⟩)

theorem boot_working {initialTickets : List ExecutionTicket} (h : ∀ t ∈ initialTickets, t.state ≠ .running) :
    Working concurrency ⟨boot initialTickets, 0⟩ where
  launched id := by
    rintro ⟨t, ht, hstate⟩
    have hmem := mem_foldl_restore (List.mem_of_find?_eq_some ht)
    obtain ⟨u, hu, hustate⟩ := List.mem_map.1 hmem
    exact absurd (hustate.trans hstate) (h u hu)
  shipped f hf := absurd hf (Multiset.notMem_zero f)

/-- **Work is conserved** in a resumed run whose failed seams cost no pump and no launch. Once no call is pending, all slots
are taken or nothing is queued, and what runs was launched. -/
theorem work_conserved (concurrency : Nat) {initialTickets : List ExecutionTicket}
    (hboot : ∀ t ∈ initialTickets, t.state ≠ .running) (moves : List QueueMove)
    (hmoves : (calls concurrency).Along (Harmless concurrency) moves ⟨boot initialTickets, 0⟩) :
    let w := (calls concurrency).run moves ⟨boot initialTickets, 0⟩
    w.pending = 0 → (∀ id, w.state.HasState id .running → w.state.isLaunched id = true) ∧
      ((∃ now, .call ⟨.resume, now⟩ ∈ moves) → (∃ id, w.state.HasState id .queued) →
        w.state.runningCount = concurrency) := by
  intro w hpending
  have hworking : ∀ moves, (calls concurrency).Along (Harmless concurrency) moves ⟨boot initialTickets, 0⟩ →
      Working concurrency ((calls concurrency).run moves ⟨boot initialTickets, 0⟩) := fun moves hmoves =>
    run_invariant (fun w m hharmless hw => step_working hharmless hw) hmoves (boot_working hboot)
  refine ⟨fun id hrunning => ?_, fun ⟨now, hresume⟩ hqueued => ?_⟩
  · refine ((hworking moves hmoves).launched id hrunning).resolve_right fun ⟨f, hf, _⟩ => ?_
    rw [hpending] at hf
    exact Multiset.notMem_zero f hf
  · obtain ⟨before, later, rfl⟩ := List.append_of_mem hresume
    obtain ⟨hbefore, hlater⟩ := (along_append before _ _).1 hmoves
    -- The pump of `resume` finds a slot and work for it, or leaves none beside the other.
    have hdriven : Driven concurrency ((calls concurrency).step (.call ⟨.resume, now⟩)
        ((calls concurrency).run before ⟨boot initialTickets, 0⟩)) := pump_driven 0 now _
    have hboth := run_invariant (Q := fun w => Working concurrency w ∧ Driven concurrency w)
      (fun w m hharmless hw => ⟨step_working hharmless hw.1, step_driven hharmless hw.1 hw.2⟩) hlater.2
      ⟨step_working hlater.1 (hworking before hbefore), hdriven⟩
    have hempty : (boot initialTickets).runningCount = 0 := by
      refine List.countP_eq_zero.2 fun t ht hrunning => ?_
      obtain ⟨u, hu, hstate⟩ := List.mem_map.1 (mem_foldl_restore ht)
      exact hboot u hu (hstate.trans (of_decide_eq_true hrunning))
    have hsound := (queue_sound concurrency initialTickets (hempty.trans_le (Nat.zero_le _))
      (before ++ (.call ⟨.resume, now⟩) :: later)).1
    refine le_antisymm hsound (not_lt.1 fun hlt => ?_)
    have hend : (calls concurrency).run (before ++ (.call ⟨.resume, now⟩) :: later) ⟨boot initialTickets, 0⟩ =
        (calls concurrency).run later ((calls concurrency).step (.call ⟨.resume, now⟩)
          ((calls concurrency).run before ⟨boot initialTickets, 0⟩)) := run_append before _ _
    rw [← hend] at hboth
    obtain ⟨f, hf, -⟩ := hboth.2 ⟨hlt, hqueued⟩
    rw [show ((calls concurrency).run _ _).pending = 0 from hpending] at hf
    exact Multiset.notMem_zero f hf

theorem harmless_call (c : Call) : Harmless concurrency w (.call c) where
  pump f message now hm := by cases hm
  launch f message now id hm := by cases hm

theorem harmless_ok (f : Frame) (value : Text) (now : Int) : Harmless concurrency w (.resume f ⟨.ok value, now⟩) where
  pump f' message now' hm := by
    injection hm with _ hr
    injection hr with hresult
    cases hresult
  launch f' message now' id hm := by
    injection hm with _ hr
    injection hr with hresult
    cases hresult

def queuedTicket (id : String) : ExecutionTicket where
  executionId := id.toList
  target := "claude".toList
  context := "file the note".toList
  state := .queued
  updatedAt := 0

/-- A boot with two queued tickets and one slot: the first is started. -/
def resumed₁ : List QueueMove :=
  [.call ⟨.resume, 1⟩, .resume (.start "x-1".toList 0) ⟨.ok [], 2⟩, .resume (.reportStart "x-1".toList 0) ⟨.ok [], 3⟩,
    .resume (.launch "x-1".toList 0) ⟨.ok [], 4⟩]

theorem work_conserved_resumed :
    ((calls 1).run resumed₁ ⟨boot [queuedTicket "x-1", queuedTicket "x-2"], 0⟩).state.runningCount = 1 ∧
      ((calls 1).run resumed₁ ⟨boot [queuedTicket "x-1", queuedTicket "x-2"], 0⟩).state.isLaunched "x-1".toList = true := by
  have hsettled : ((calls 1).run resumed₁ ⟨boot [queuedTicket "x-1", queuedTicket "x-2"], 0⟩).pending = 0 ∧
      ((((calls 1).run resumed₁ ⟨boot [queuedTicket "x-1", queuedTicket "x-2"], 0⟩).state.ticket? "x-1".toList).map (·.state) =
        some .running ∧
      (((calls 1).run resumed₁ ⟨boot [queuedTicket "x-1", queuedTicket "x-2"], 0⟩).state.ticket? "x-2".toList).map (·.state) =
        some .queued) := by
    decide +kernel
  obtain ⟨hlaunched, hfull⟩ := @work_conserved 1 [queuedTicket "x-1", queuedTicket "x-2"] (by decide) resumed₁
    ⟨harmless_call _, harmless_ok _ _ _, harmless_ok _ _ _, harmless_ok _ _ _, trivial⟩ hsettled.1
  refine ⟨hfull ⟨1, List.mem_cons_self⟩ ⟨"x-2".toList, ?_⟩, hlaunched _ ?_⟩
  · exact Option.map_eq_some_iff.1 hsettled.2.2
  · exact Option.map_eq_some_iff.1 hsettled.2.1

/-- The report of the first outcome fails. -/
def unreported : List QueueMove :=
  resumed₁ ++ [.call ⟨.reportOutcome { executionId := "x-1".toList, outward := false }, 5⟩,
    .resume (.outcome "x-1".toList .done) ⟨.ok [], 6⟩, .resume (.reportThenPump 0) ⟨.error "HTTP 500".toList, 7⟩]

/-- The first ticket is not persisted when it is started. -/
def unpersisted : List QueueMove :=
  [.call ⟨.resume, 1⟩, .resume (.start "x-1".toList 0) ⟨.error "disk full".toList, 2⟩]

/-- **A failed report leaves the slot free beside queued work**, and a ticket that is not persisted runs without a launch. -/
theorem slot_left_free :
    (¬∀ concurrency initialTickets moves, (∀ t ∈ initialTickets, t.state ≠ .running) → (∃ now, .call ⟨.resume, now⟩ ∈ moves) →
      ((calls concurrency).run moves ⟨boot initialTickets, 0⟩).pending = 0 →
        (∃ id, ((calls concurrency).run moves ⟨boot initialTickets, 0⟩).state.HasState id .queued) →
          ((calls concurrency).run moves ⟨boot initialTickets, 0⟩).state.runningCount = concurrency) ∧
      ¬∀ concurrency initialTickets moves, (∀ t ∈ initialTickets, t.state ≠ .running) →
        ((calls concurrency).run moves ⟨boot initialTickets, 0⟩).pending = 0 →
          ∀ id, ((calls concurrency).run moves ⟨boot initialTickets, 0⟩).state.HasState id .running →
            ((calls concurrency).run moves ⟨boot initialTickets, 0⟩).state.isLaunched id = true := by
  constructor
  · intro h
    have hsettled : ((calls 1).run unreported ⟨boot [queuedTicket "x-1", queuedTicket "x-2"], 0⟩).pending = 0 ∧
        ((calls 1).run unreported ⟨boot [queuedTicket "x-1", queuedTicket "x-2"], 0⟩).state.runningCount = 0 ∧
        (((calls 1).run unreported ⟨boot [queuedTicket "x-1", queuedTicket "x-2"], 0⟩).state.ticket? "x-2".toList).map (·.state) =
          some .queued := by
      decide +kernel
    have hfull := h 1 [queuedTicket "x-1", queuedTicket "x-2"] unreported (by decide) ⟨1, List.mem_cons_self⟩ hsettled.1
      ⟨"x-2".toList, Option.map_eq_some_iff.1 hsettled.2.2⟩
    rw [hsettled.2.1] at hfull
    cases hfull
  · intro h
    have hsettled : ((calls 1).run unpersisted ⟨boot [queuedTicket "x-1"], 0⟩).pending = 0 ∧
        ((calls 1).run unpersisted ⟨boot [queuedTicket "x-1"], 0⟩).state.isLaunched "x-1".toList = false ∧
        (((calls 1).run unpersisted ⟨boot [queuedTicket "x-1"], 0⟩).state.ticket? "x-1".toList).map (·.state) =
          some .running := by
      decide +kernel
    have hlaunched := h 1 [queuedTicket "x-1"] unpersisted (by decide) hsettled.1 "x-1".toList
      (Option.map_eq_some_iff.1 hsettled.2.2)
    rw [hsettled.2.1] at hlaunched
    cases hlaunched

end Zenod.Execution
