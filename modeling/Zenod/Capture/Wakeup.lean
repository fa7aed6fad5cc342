/-
Which tickets a pass offers. A ticket that is due when a pass starts is on its
list and comes to be offered; one that becomes due during a pass is on the
list of the next, which is requested; and what is delivered is on no list.
-/
import Zenod.Capture.Delivery
import Mathlib.Data.List.Sort

namespace Zenod.Capture

open Keyed Text Producer

variable {s s' s₁ s₂ : Producer} {k : TicketKey} {r r' : TicketRow} {ticket : CaptureTicketDelivery} {es es' : List Event}

/-! ## Answers -/

def Answer.isDone : Answer → Bool
  | .recorded | .duplicate => true
  | .pending | .failed _ => false

/-- What is known of the tables behind an answer. -/
structure Answered (s s' : Producer) (k : TicketKey) (answer : Answer) : Prop where
  authorities : s'.authorities = s.authorities
  ext : Extends s s'
  delivered : ∀ j, Delivered s' j → Delivered s j ∨ j = k ∧ answer.isDone = true
  closed : s'.closed = s.closed
  wakeRequested : s'.wakeRequested = s.wakeRequested
  log : s'.log = s.log

theorem answered_record {answer : Answer} {f : TicketRow → TicketRow} (hf : ∀ r, (f r).key = r.key)
    (hadvances : ∀ r, r.deliveredAt = none → Advances r (f r))
    (hdelivered : answer.isDone = true ∨ ∀ r, (f r).deliveredAt = r.deliveredAt) : Answered s (s.record k f hf) k answer where
  authorities := rfl
  ext := by
    refine .of_update _ hf fun r hp => hadvances r ?_
    simp only [Bool.and_eq_true, Option.isNone_iff_eq_none] at hp
    exact hp.2
  delivered j := by
    rintro ⟨r, hr, hd⟩
    have hr := (ticket_update (fun r r' => congrArg (· == r'.key) (hf r)) hf j).symm.trans hr
    obtain ⟨r₀, hr₀, rfl⟩ := Option.map_eq_some_iff.1 hr
    split at hd
    · next hp =>
      simp only [Bool.and_eq_true, decide_eq_true_eq] at hp
      rcases hdelivered with hdone | hsame
      · exact Or.inr ⟨(ticket_spec hr₀).2.symm.trans hp.1, hdone⟩
      · exact Or.inl ⟨r₀, hr₀, by rwa [hsame] at hd⟩
    · exact Or.inl ⟨r₀, hr₀, hd⟩
  closed := rfl
  wakeRequested := rfl
  log := rfl

theorem answered_recordAnswer (k : TicketKey) (deliveredAt updatedAt : Int) (answer : Answer) :
    Answered s (s.recordAnswer k deliveredAt updatedAt answer) k answer := by
  have hdone : ∀ answer : Answer, answer.isDone = true → Answered s (s.record k (fun r => { r with
      deliveredAt := some deliveredAt, lastError := none, updatedAt := updatedAt }) fun _ => rfl) k answer := by
    refine fun answer hanswer => answered_record _ (fun r hr => ?_) (Or.inl hanswer)
    refine ⟨rfl, fun _ h => h, fun _ h => h, fun _ h => h, fun t ht => ?_⟩
    rw [hr] at ht
    cases ht
  cases answer with
  | recorded => exact hdone .recorded rfl
  | duplicate => exact hdone .duplicate rfl
  | pending => exact ⟨rfl, .refl s, fun _ h => Or.inl h, rfl, rfl, rfl⟩
  | failed message =>
    unfold recordAnswer
    exact answered_record _ (fun _ _ => ⟨rfl, fun _ h => h, fun _ h => h, fun _ h => h, fun _ h => h⟩) (Or.inr fun _ => rfl)

/-- An answer is recorded, and then the loop goes on. -/
theorem answer_eq {rest : List CaptureTicketDelivery} (hpass : s.drainPromise = some (.offering ticket rest)) (answer : Answer)
    (deliveredAt updatedAt : Int) : ∃ q, s.answer answer deliveredAt updatedAt = q.offer rest ∧
      Answered { s with log := s.log ++ [.answered ticket answer] } q ticket.key answer := by
  refine ⟨_, ?_, answered_recordAnswer ticket.key deliveredAt updatedAt answer⟩
  unfold Producer.answer
  rw [hpass]

theorem delivered_of_tables (houtbox : s'.outbox = s.outbox) : Delivered s' k ↔ Delivered s k := by
  unfold Delivered ticket?
  rw [houtbox]

theorem delivered_offer (tickets : List CaptureTicketDelivery) : Delivered (s.offer tickets) k ↔ Delivered s k :=
  delivered_of_tables (quiet_offer tickets).1

/-! ## Acts -/

theorem Act.ext (h : Act s es s') : Extends s s' := by
  cases h with
  | quiet h => exact h.ext
  | start hclosed hpass =>
    obtain ⟨houtbox, hauthorities, -⟩ := @quiet_offer { s with drainPromise := none, wakeRequested := false } s.pending
    exact .of_tables houtbox hauthorities
  | wake => exact .of_tables rfl rfl
  | @answer ticket rest answer deliveredAt updatedAt hpass =>
    obtain ⟨q, heq, hq⟩ := answer_eq hpass answer deliveredAt updatedAt
    rw [heq]
    obtain ⟨houtbox, hauthorities, -⟩ := @quiet_offer q rest
    have hbase : Extends s { s with log := s.log ++ [.answered ticket answer] } := .of_tables rfl rfl
    exact hbase.trans (hq.ext.trans (.of_tables houtbox hauthorities))
  | idle => exact .of_tables rfl rfl

theorem Act.log (h : Act s es s') : s'.log = s.log ++ es := by
  cases h with
  | quiet h => rw [h.log, List.append_nil]
  | start hclosed hpass => exact offer_log _
  | wake => exact (List.append_nil _).symm
  | @answer ticket rest answer deliveredAt updatedAt hpass =>
    obtain ⟨q, heq, hq⟩ := answer_eq hpass answer deliveredAt updatedAt
    have hfirst : q.firstOffer rest = s.firstOffer rest := by
      unfold firstOffer
      rw [show q.closed = s.closed from hq.closed]
    rw [heq, offer_log, hq.log, hfirst, List.append_assoc]
    rfl
  | idle => exact (List.append_nil _).symm

theorem Act.valid (h : Act s es s') (hv : Valid s) : Valid s' := by
  cases h with
  | quiet h => exact h.valid hv
  | start =>
    unfold Valid
    rwa [(quiet_offer _).2.1]
  | wake => exact hv
  | @answer ticket rest answer deliveredAt updatedAt hpass =>
    obtain ⟨q, heq, hq⟩ := answer_eq hpass answer deliveredAt updatedAt
    unfold Valid
    rwa [heq, (quiet_offer rest).2.1, hq.authorities]
  | idle => exact hv

/-- A ticket is delivered by the answer to its offer, and nothing else. -/
theorem Act.delivered (h : Act s es s') (hd : Delivered s' k) : Delivered s k ∨ ∃ ticket rest answer deliveredAt updatedAt,
    s.drainPromise = some (.offering ticket rest) ∧ ticket.key = k ∧ answer.isDone = true ∧
      s' = s.answer answer deliveredAt updatedAt ∧ .answered ticket answer ∈ es := by
  cases h with
  | quiet h => exact Or.inl (h.delivered k hd)
  | start => exact Or.inl ((@delivered_offer { s with drainPromise := none, wakeRequested := false } k s.pending).1 hd)
  | wake => exact Or.inl hd
  | @answer ticket rest answer deliveredAt updatedAt hpass =>
    obtain ⟨q, heq, hq⟩ := answer_eq hpass answer deliveredAt updatedAt
    rw [heq, delivered_offer] at hd
    rcases hq.delivered k hd with hd | ⟨hk, hdone⟩
    · exact Or.inl hd
    · exact Or.inr ⟨ticket, rest, answer, deliveredAt, updatedAt, hpass, hk.symm, hdone, rfl, List.mem_cons_self⟩
  | idle => exact Or.inl hd

/-! ## Lists of tickets -/

theorem due_spec (h : r.due = some ticket) : ticket.key = r.key ∧ r.deliveredAt = none := by
  unfold TicketRow.due at h
  split at h
  · next hcond =>
    rw [Bool.and_eq_true, Option.isNone_iff_eq_none] at hcond
    split at h
    · cases h
      exact ⟨rfl, hcond.1⟩
    · cases h
  · cases h

theorem mem_pending : ticket ∈ s.pending ↔ ∃ r ∈ s.outbox.rows, r.due = some ticket := by
  unfold pending
  simp only [List.mem_filterMap, List.mem_insertionSort]

theorem pending_distinct (s : Producer) : (s.pending.map (·.key)).Nodup := by
  have hrows : s.outbox.rows.Pairwise fun a b => a.key ≠ b.key := s.outbox.unique.imp fun h => by simpa [clash] using h
  have hsorted : (s.outbox.rows.insertionSort TicketRow.before).Pairwise fun a b => a.key ≠ b.key :=
    (List.perm_insertionSort TicketRow.before s.outbox.rows).symm.pairwise hrows fun h => Ne.symm h
  unfold List.Nodup pending
  rw [List.pairwise_map]
  refine List.pairwise_filterMap.2 (hsorted.imp fun {a b} hne ticket hticket ticket' hticket' => ?_)
  rw [(due_spec hticket).1, (due_spec hticket').1]
  exact hne

theorem not_delivered_of_due (hr : r ∈ s.outbox.rows) (h : r.due = some ticket) : ¬Delivered s ticket.key := by
  rintro ⟨r', hr', hd⟩
  rw [(due_spec h).1, ticket_of_mem hr, Option.some.injEq] at hr'
  rw [← hr', (due_spec h).2] at hd
  cases hd

/-- The tickets of the pass at work are different ones, none of them delivered. -/
def PassOk (s : Producer) : Prop :=
  ∀ ticket rest, s.drainPromise = some (.offering ticket rest) →
    ((ticket :: rest).map (·.key)).Nodup ∧ ∀ u ∈ ticket :: rest, ¬Delivered s u.key

theorem passOk_offer {tickets : List CaptureTicketDelivery} (hdistinct : (tickets.map (·.key)).Nodup)
    (hopen : ∀ u ∈ tickets, ¬Delivered s u.key) : PassOk (s.offer tickets) := by
  intro ticket rest hpass
  have htickets : tickets = ticket :: rest := by
    cases tickets with
    | nil => cases hpass
    | cons u us =>
      unfold offer at hpass
      dsimp only at hpass
      split at hpass
      · cases hpass
      · cases hpass
        rfl
  subst htickets
  exact ⟨hdistinct, fun u hu hd => hopen u hu ((delivered_offer _).1 hd)⟩

theorem passOk_of_none (h : ∀ ticket rest, s.drainPromise ≠ some (.offering ticket rest)) : PassOk s :=
  fun ticket rest hpass => absurd hpass (h ticket rest)

theorem open_of_pending : ∀ u ∈ s.pending, ¬Delivered s u.key := by
  intro u hu
  obtain ⟨r, hr, hdue⟩ := mem_pending.1 hu
  exact not_delivered_of_due hr hdue

/-- The rest of a pass, behind an answer. -/
theorem PassOk.rest {rest : List CaptureTicketDelivery} {q : Producer} {answer : Answer} (hok : PassOk s)
    (hpass : s.drainPromise = some (.offering ticket rest))
    (hq : Answered { s with log := s.log ++ [.answered ticket answer] } q ticket.key answer) :
    (rest.map (·.key)).Nodup ∧ ∀ u ∈ rest, ¬Delivered q u.key := by
  obtain ⟨hdistinct, hopen⟩ := hok ticket rest hpass
  rw [List.map_cons, List.nodup_cons] at hdistinct
  refine ⟨hdistinct.2, fun u hu hd => ?_⟩
  rcases hq.delivered u.key hd with hd | ⟨hkey, -⟩
  · exact hopen u (List.mem_cons_of_mem _ hu) hd
  · exact hdistinct.1 (hkey ▸ List.mem_map_of_mem hu)

theorem Act.passOk (h : Act s es s') (hok : PassOk s) : PassOk s' := by
  cases h with
  | quiet h =>
    intro ticket rest hpass
    rw [h.drainPromise] at hpass
    obtain ⟨hdistinct, hopen⟩ := hok ticket rest hpass
    exact ⟨hdistinct, fun u hu hd => hopen u hu (h.delivered _ hd)⟩
  | start hclosed hpass => exact passOk_offer (pending_distinct s) open_of_pending
  | wake => exact hok
  | @answer ticket rest answer deliveredAt updatedAt hpass =>
    obtain ⟨q, heq, hq⟩ := answer_eq hpass answer deliveredAt updatedAt
    obtain ⟨hdistinct, hopen⟩ := hok.rest hpass hq
    rw [heq]
    exact passOk_offer hdistinct hopen
  | idle hpass => exact passOk_of_none fun ticket rest h => by cases h

theorem offered_first {tickets : List CaptureTicketDelivery} (h : .offered ticket ∈ s.firstOffer tickets) : ticket ∈ tickets := by
  cases tickets with
  | nil => cases h
  | cons u us =>
    unfold firstOffer at h
    dsimp only at h
    split at h
    · cases h
    · rw [List.mem_singleton, Event.offered.injEq] at h
      exact h ▸ List.mem_cons_self

/-- **What is offered has not been delivered.** -/
theorem Act.offered (h : Act s es s') (hok : PassOk s) (hoffered : .offered ticket ∈ es) : ¬Delivered s' ticket.key := by
  cases h with
  | quiet h => cases hoffered
  | start hclosed hpass =>
    rw [delivered_offer]
    exact open_of_pending ticket (offered_first hoffered)
  | wake => cases hoffered
  | @answer current rest answer deliveredAt updatedAt hpass =>
    obtain ⟨q, heq, hq⟩ := answer_eq hpass answer deliveredAt updatedAt
    rw [heq, delivered_offer]
    rcases List.mem_cons.1 hoffered with hoffered | hoffered
    · cases hoffered
    · exact (hok.rest hpass hq).2 ticket (offered_first hoffered)
  | idle => cases hoffered

/-! ## Wake-ups -/

/-- The ticket would be offered by a pass that starts now. -/
def Due (s : Producer) (k : TicketKey) : Prop := ∃ r ∈ s.outbox.rows, r.key = k ∧ r.due.isSome = true

/-- The pass at work comes to the ticket. -/
def OnList (s : Producer) (k : TicketKey) : Prop :=
  ∃ ticket rest, s.drainPromise = some (.offering ticket rest) ∧ ∃ u ∈ rest, u.key = k

/-- The pass at work comes to the ticket, or it is due and a further pass is requested. -/
def Awaiting (s : Producer) (k : TicketKey) : Prop :=
  OnList s k ∨ s.drainPromise ≠ none ∧ s.wakeRequested = true ∧ Due s k

def OfferedIn (k : TicketKey) (es : List Event) : Prop := ∃ ticket, ticket.key = k ∧ .offered ticket ∈ es

def AnsweredIn (k : TicketKey) (es : List Event) : Prop := ∃ ticket answer, ticket.key = k ∧ .answered ticket answer ∈ es

theorem OfferedIn.append_left (h : OfferedIn k es) : OfferedIn k (es ++ es') := by
  obtain ⟨ticket, hkey, hmem⟩ := h
  exact ⟨ticket, hkey, List.mem_append_left _ hmem⟩

theorem OfferedIn.append_right (h : OfferedIn k es') : OfferedIn k (es ++ es') := by
  obtain ⟨ticket, hkey, hmem⟩ := h
  exact ⟨ticket, hkey, List.mem_append_right _ hmem⟩

theorem AnsweredIn.append_left (h : AnsweredIn k es) : AnsweredIn k (es ++ es') := by
  obtain ⟨ticket, answer, hkey, hmem⟩ := h
  exact ⟨ticket, answer, hkey, List.mem_append_left _ hmem⟩

theorem AnsweredIn.append_right (h : AnsweredIn k es') : AnsweredIn k (es ++ es') := by
  obtain ⟨ticket, answer, hkey, hmem⟩ := h
  exact ⟨ticket, answer, hkey, List.mem_append_right _ hmem⟩

theorem Due.pending (h : Due s k) : ∃ ticket ∈ s.pending, ticket.key = k := by
  obtain ⟨r, hr, hkey, hdue⟩ := h
  obtain ⟨ticket, hticket⟩ := Option.isSome_iff_exists.1 hdue
  exact ⟨ticket, mem_pending.2 ⟨r, hr, hticket⟩, (due_spec hticket).1.trans hkey⟩

theorem Due.not_delivered (h : Due s k) : ¬Delivered s k := by
  obtain ⟨ticket, hticket, rfl⟩ := h.pending
  exact open_of_pending ticket hticket

theorem Due.mono (h : Due s k) (hextends : Extends s s') (hopen : ¬Delivered s' k) : Due s' k := by
  obtain ⟨r, hr, rfl, hdue⟩ := h
  obtain ⟨r', hr', hadvances⟩ := hextends.tickets r.key r (ticket_of_mem hr)
  have hundelivered : r'.deliveredAt = none := by
    by_contra hne
    exact hopen ⟨r', hr', Option.isSome_iff_ne_none.2 hne⟩
  refine ⟨r', (ticket_spec hr').1, (ticket_spec hr').2, ?_⟩
  unfold TicketRow.due at hdue ⊢
  cases hterminal : r.terminalAt with
  | none => simp [hterminal] at hdue
  | some t =>
    cases hmemory : r.memoryAuthorityId with
    | none => simp [hmemory] at hdue
    | some a =>
      cases htool : r.captureTool with
      | none => simp [htool] at hdue
      | some c =>
        rw [hundelivered, hadvances.terminalAt t hterminal, hadvances.memoryAuthorityId a hmemory, hadvances.captureTool c htool]
        rfl

theorem offer_reaches {tickets : List CaptureTicketDelivery} (hclosed : s.closed = false) (h : ∃ u ∈ tickets, u.key = k) :
    OfferedIn k (s.firstOffer tickets) ∨ OnList (s.offer tickets) k := by
  obtain ⟨u, hu, rfl⟩ := h
  cases tickets with
  | nil => cases hu
  | cons ticket rest =>
    have hopen : ¬s.closed = true := by rw [hclosed]; decide
    have hfirst : s.firstOffer (ticket :: rest) = [.offered ticket] := if_neg hopen
    have hoffer : (s.offer (ticket :: rest)).drainPromise = some (.offering ticket rest) := by
      unfold offer
      dsimp only
      rw [if_neg hopen]
    rcases List.mem_cons.1 hu with rfl | hu
    · exact Or.inl ⟨u, rfl, hfirst ▸ List.mem_singleton_self _⟩
    · exact Or.inr ⟨ticket, rest, hoffer, u, hu, rfl⟩

theorem offer_active (tickets : List CaptureTicketDelivery) : (s.offer tickets).drainPromise ≠ none := by
  cases tickets with
  | nil => exact Option.some_ne_none _
  | cons ticket rest =>
    unfold offer
    dsimp only
    split <;> exact Option.some_ne_none _

theorem Act.closed (h : Act s es s') : s'.closed = s.closed := by
  cases h with
  | quiet h => exact h.closed
  | start => exact (quiet_offer _).2.2.1
  | wake => rfl
  | @answer ticket rest answer deliveredAt updatedAt hpass =>
    obtain ⟨q, heq, hq⟩ := answer_eq hpass answer deliveredAt updatedAt
    rw [heq, (quiet_offer rest).2.2.1, hq.closed]
  | idle => rfl

/-- **The pass at work comes to each ticket of its list.** -/
theorem Act.onList (h : Act s es s') (hclosed : s.closed = false) (hlist : OnList s k) : OfferedIn k es ∨ OnList s' k := by
  obtain ⟨ticket, rest, hpass, hrest⟩ := hlist
  cases h with
  | quiet h => exact Or.inr ⟨ticket, rest, h.drainPromise.trans hpass, hrest⟩
  | start _ hidle => rcases hidle with hidle | hidle <;> (rw [hpass] at hidle; cases hidle)
  | wake => exact Or.inr ⟨ticket, rest, hpass, hrest⟩
  | @answer current others answer deliveredAt updatedAt hcurrent =>
    rw [hpass, Option.some.injEq, Pass.offering.injEq] at hcurrent
    obtain ⟨rfl, rfl⟩ := hcurrent
    obtain ⟨q, heq, hq⟩ := answer_eq hpass answer deliveredAt updatedAt
    have hfirst : q.firstOffer rest = s.firstOffer rest := by
      unfold firstOffer
      rw [show q.closed = s.closed from hq.closed]
    rw [heq]
    rcases offer_reaches (hq.closed.trans hclosed) hrest with hoffered | hlist
    · rw [hfirst] at hoffered
      exact Or.inl (@OfferedIn.append_right k [_] _ hoffered)
    · exact Or.inr hlist
  | idle hidle =>
    rw [hpass] at hidle
    cases hidle

/-- **No wake-up is lost**: what is awaited is offered, its offer is answered, or it is awaited still. -/
theorem Act.awaiting (h : Act s es s') (hclosed : s.closed = false) (hawaiting : Awaiting s k) :
    OfferedIn k es ∨ AnsweredIn k es ∨ Awaiting s' k := by
  rcases hawaiting with hlist | ⟨hactive, hwake, hdue⟩
  · rcases h.onList hclosed hlist with hoffered | hlist
    · exact Or.inl hoffered
    · exact Or.inr (Or.inr (Or.inl hlist))
  · by_cases hd : Delivered s' k
    · rcases h.delivered hd with hd | ⟨ticket, rest, answer, deliveredAt, updatedAt, -, hkey, -, -, hmem⟩
      · exact absurd hd hdue.not_delivered
      · exact Or.inr (Or.inl ⟨ticket, answer, hkey, hmem⟩)
    · have hdue' := hdue.mono h.ext hd
      cases h with
      | quiet h => exact Or.inr (Or.inr (Or.inr ⟨by rwa [h.drainPromise], h.wakeRequested.trans hwake, hdue'⟩))
      | start =>
        rcases @offer_reaches { s with drainPromise := none, wakeRequested := false } k s.pending hclosed hdue.pending with
          hoffered | hlist
        · exact Or.inl hoffered
        · exact Or.inr (Or.inr (Or.inl hlist))
      | wake => exact Or.inr (Or.inr (Or.inr ⟨hactive, rfl, hdue'⟩))
      | @answer ticket rest answer deliveredAt updatedAt hpass =>
        obtain ⟨q, heq, hq⟩ := answer_eq hpass answer deliveredAt updatedAt
        rw [heq] at hdue' ⊢
        exact Or.inr (Or.inr (Or.inr ⟨offer_active rest, ((quiet_offer rest).2.2.2.trans hq.wakeRequested).trans hwake, hdue'⟩))
      | idle _ hidle =>
        rcases hidle with hidle | hidle
        · rw [hwake] at hidle
          cases hidle
        · rw [hclosed] at hidle
          cases hidle

/-! ## Courses of acts -/

theorem Acts.ext (h : Acts s es s') : Extends s s' := by
  induction h with
  | refl => exact .refl _
  | tail _ ha ih => exact ih.trans ha.ext

theorem Acts.log (h : Acts s es s') : s'.log = s.log ++ es := by
  induction h with
  | refl => exact (List.append_nil _).symm
  | tail _ ha ih => rw [ha.log, ih, List.append_assoc]

theorem Acts.closed (h : Acts s es s') : s'.closed = s.closed := by
  induction h with
  | refl => rfl
  | tail _ ha ih => exact ha.closed.trans ih

theorem Acts.passOk (h : Acts s es s') (hok : PassOk s) : PassOk s' := by
  induction h with
  | refl => exact hok
  | tail _ ha ih => exact ha.passOk ih

theorem Acts.valid (h : Acts s es s') (hv : Valid s) : Valid s' := by
  induction h with
  | refl => exact hv
  | tail _ ha ih => exact ha.valid ih

theorem Acts.offered (h : Acts s es s') (hok : PassOk s) (hoffered : .offered ticket ∈ es) : ¬Delivered s ticket.key := by
  induction h with
  | refl => cases hoffered
  | tail h ha ih =>
    rcases List.mem_append.1 hoffered with hoffered | hoffered
    · exact ih hoffered
    · intro hd
      exact ha.offered (h.passOk hok) hoffered (hd.mono (h.ext.trans ha.ext))

theorem Acts.delivered (h : Acts s es s') (hd : Delivered s' k) :
    Delivered s k ∨ ∃ ticket answer, ticket.key = k ∧ answer.isDone = true ∧ .answered ticket answer ∈ es := by
  induction h with
  | refl => exact Or.inl hd
  | tail _ ha ih =>
    rcases ha.delivered hd with hd | ⟨ticket, rest, answer, deliveredAt, updatedAt, -, hkey, hdone, -, hmem⟩
    · rcases ih hd with hd | ⟨ticket, answer, hkey, hdone, hmem⟩
      · exact Or.inl hd
      · exact Or.inr ⟨ticket, answer, hkey, hdone, List.mem_append_left _ hmem⟩
    · exact Or.inr ⟨ticket, answer, hkey, hdone, List.mem_append_right _ hmem⟩

/-- No pass is at work. -/
def Resting (s : Producer) : Prop := ∀ ticket rest, s.drainPromise ≠ some (.offering ticket rest)

/-- **A pass that starts comes to each ticket that is due.** -/
theorem Acts.resting (h : Acts s es s') (hclosed : s.closed = false) (hrest : Resting s) (hdue : Due s k) :
    (Resting s' ∧ Due s' k ∧ es = []) ∨ OfferedIn k es ∨ OnList s' k := by
  induction h with
  | refl => exact Or.inl ⟨hrest, hdue, rfl⟩
  | @tail b c es es' h ha ih =>
    rcases ih with ⟨hrest, hdue, rfl⟩ | hoffered | hlist
    · rw [List.nil_append]
      cases ha with
      | quiet h =>
        refine Or.inl ⟨?_, hdue.mono h.ext fun hd => hdue.not_delivered (h.delivered k hd), rfl⟩
        unfold Resting
        rwa [h.drainPromise]
      | start =>
        exact Or.inr (@offer_reaches { b with drainPromise := none, wakeRequested := false } k b.pending
          (h.closed.trans hclosed) hdue.pending)
      | wake => exact Or.inl ⟨hrest, hdue, rfl⟩
      | @answer ticket rest _ _ _ hpass => exact absurd hpass (hrest ticket rest)
      | idle => exact Or.inl ⟨fun _ _ hpass => (by cases hpass), hdue, rfl⟩
    · exact Or.inr (Or.inl hoffered.append_left)
    · exact Or.inr ((ha.onList (h.closed.trans hclosed) hlist).imp_left OfferedIn.append_right)

theorem Acts.awaiting (h : Acts s es s') (hclosed : s.closed = false) (hawaiting : Awaiting s k) :
    OfferedIn k es ∨ AnsweredIn k es ∨ Awaiting s' k := by
  induction h with
  | refl => exact Or.inr (Or.inr hawaiting)
  | tail h ha ih =>
    rcases ih with hoffered | hanswered | hawaiting
    · exact Or.inl hoffered.append_left
    · exact Or.inr (Or.inl hanswered.append_left)
    · exact (ha.awaiting (h.closed.trans hclosed) hawaiting).imp OfferedIn.append_right (Or.imp_left AnsweredIn.append_right)

end Zenod.Capture
