/-
What the calls and passes of the producer do to its tickets.

`Acts`: a call is a course of acts, each a statement, a wake-up, or a turn of a
pass. `Extends`: nothing that is set in a ticket or an authority changes.
-/
import Zenod.Capture.Tickets

namespace Zenod.Capture

open Keyed Text Producer

variable {s s' s₁ s₂ : Producer} {k : TicketKey} {r r' : TicketRow} {ticket : CaptureTicketDelivery} {times : Times}

/-! ## Tickets behind a statement -/

theorem identifies_key (k : TicketKey) : Table.Identifies fun r : TicketRow => decide (r.key = k) := by
  intro a b ha hb
  rw [decide_eq_true_eq] at ha hb
  show (a.key == b.key) = true
  rw [ha, hb, beq_self_eq_true]

theorem ticket_spec (h : s.ticket? k = some r) : r ∈ s.outbox.rows ∧ r.key = k := by
  unfold ticket? at h
  have hkey := List.find?_some h
  rw [decide_eq_true_eq] at hkey
  exact ⟨List.mem_of_find?_eq_some h, hkey⟩

theorem ticket_of_mem (h : r ∈ s.outbox.rows) : s.ticket? r.key = some r :=
  Table.find?_of_mem (identifies_key r.key) h (decide_eq_true rfl)

theorem ticket_update {p : TicketRow → Bool} {f : TicketRow → TicketRow} (hf : ∀ r r', clash (f r) r' = clash r r')
    (hkey : ∀ r, (f r).key = r.key) (k : TicketKey) :
    ((s.outbox.update p f hf).rows.find? fun r => r.key = k) = (s.ticket? k).map fun r => if p r then f r else r :=
  Table.find?_update hf fun r => by rw [hkey]

/-- What is set in a ticket stays. -/
structure Advances (r r' : TicketRow) : Prop where
  jobId : r'.jobId = r.jobId
  memoryAuthorityId : ∀ a, r.memoryAuthorityId = some a → r'.memoryAuthorityId = some a
  captureTool : ∀ c, r.captureTool = some c → r'.captureTool = some c
  terminalAt : ∀ t, r.terminalAt = some t → r'.terminalAt = some t
  deliveredAt : ∀ t, r.deliveredAt = some t → r'.deliveredAt = some t

theorem Advances.refl (r : TicketRow) : Advances r r := ⟨rfl, fun _ h => h, fun _ h => h, fun _ h => h, fun _ h => h⟩

theorem Advances.trans {a b c : TicketRow} (h : Advances a b) (h' : Advances b c) : Advances a c where
  jobId := h'.jobId.trans h.jobId
  memoryAuthorityId x hx := h'.memoryAuthorityId x (h.memoryAuthorityId x hx)
  captureTool x hx := h'.captureTool x (h.captureTool x hx)
  terminalAt x hx := h'.terminalAt x (h.terminalAt x hx)
  deliveredAt x hx := h'.deliveredAt x (h.deliveredAt x hx)

structure Extends (s s' : Producer) : Prop where
  tickets : ∀ k r, s.ticket? k = some r → ∃ r', s'.ticket? k = some r' ∧ Advances r r'
  authorities : ∀ tenantId jobId a, s.memoryJobAuthority tenantId jobId = some a → s'.memoryJobAuthority tenantId jobId = some a

theorem Extends.refl (s : Producer) : Extends s s := ⟨fun _ r h => ⟨r, h, .refl r⟩, fun _ _ _ h => h⟩

theorem Extends.trans (h : Extends s s₁) (h' : Extends s₁ s₂) : Extends s s₂ where
  tickets k r hr := by
    obtain ⟨r₁, hr₁, hadvances₁⟩ := h.tickets k r hr
    obtain ⟨r₂, hr₂, hadvances₂⟩ := h'.tickets k r₁ hr₁
    exact ⟨r₂, hr₂, hadvances₁.trans hadvances₂⟩
  authorities t j a ha := h'.authorities t j a (h.authorities t j a ha)

/-- A producer of the same two tables. -/
theorem Extends.of_tables (houtbox : s'.outbox = s.outbox) (hauthorities : s'.authorities = s.authorities) : Extends s s' where
  tickets k r h := ⟨r, by unfold ticket? at h ⊢; rwa [houtbox], .refl r⟩
  authorities t j a h := by unfold memoryJobAuthority at h ⊢; rwa [hauthorities]

theorem Extends.of_update {p : TicketRow → Bool} {f : TicketRow → TicketRow} (hf : ∀ r r', clash (f r) r' = clash r r')
    (hkey : ∀ r, (f r).key = r.key) (hadvances : ∀ r, p r = true → Advances r (f r)) :
    Extends s { s with outbox := s.outbox.update p f hf } where
  tickets k r h := by
    refine ⟨if p r then f r else r, ?_, ?_⟩
    · exact (ticket_update hf hkey k).trans (by rw [h, Option.map_some])
    · split
      · next hp => exact hadvances r hp
      · exact .refl r
  authorities _ _ _ h := h

/-- The ticket was delivered. -/
def Delivered (s : Producer) (k : TicketKey) : Prop := ∃ r, s.ticket? k = some r ∧ r.deliveredAt.isSome = true

theorem Delivered.mono (h : Delivered s k) (hextends : Extends s s') : Delivered s' k := by
  obtain ⟨r, hr, hd⟩ := h
  obtain ⟨r', hr', hadvances⟩ := hextends.tickets k r hr
  obtain ⟨t, ht⟩ := Option.isSome_iff_exists.1 hd
  exact ⟨r', hr', by rw [hadvances.deliveredAt t ht]; rfl⟩

/-- What `bindMemoryJob` lets into a row. -/
structure WellBound (row : AuthorityRow) : Prop where
  tenantId : trim row.tenantId = row.tenantId ∧ row.tenantId ≠ []
  jobId : trim row.jobId = row.jobId ∧ row.jobId ≠ []
  memoryAuthorityId : trim row.authority.memoryAuthorityId = row.authority.memoryAuthorityId ∧
    isMemoryAuthorityId row.authority.memoryAuthorityId = true

def Valid (s : Producer) : Prop := ∀ row ∈ s.authorities.rows, WellBound row

/-- A statement that delivers no ticket, and leaves the passes alone. -/
structure Quiet (s s' : Producer) : Prop where
  valid : Valid s → Valid s'
  ext : Extends s s'
  delivered : ∀ k, Delivered s' k → Delivered s k
  drainPromise : s'.drainPromise = s.drainPromise
  wakeRequested : s'.wakeRequested = s.wakeRequested
  closed : s'.closed = s.closed
  log : s'.log = s.log

theorem Quiet.refl (s : Producer) : Quiet s s := ⟨fun h => h, .refl s, fun _ h => h, rfl, rfl, rfl, rfl⟩

theorem Quiet.trans (h : Quiet s s₁) (h' : Quiet s₁ s₂) : Quiet s s₂ where
  valid hv := h'.valid (h.valid hv)
  ext := h.ext.trans h'.ext
  delivered k hk := h.delivered k (h'.delivered k hk)
  drainPromise := h'.drainPromise.trans h.drainPromise
  wakeRequested := h'.wakeRequested.trans h.wakeRequested
  closed := h'.closed.trans h.closed
  log := h'.log.trans h.log

theorem Quiet.of_update {p : TicketRow → Bool} {f : TicketRow → TicketRow} (hf : ∀ r r', clash (f r) r' = clash r r')
    (hkey : ∀ r, (f r).key = r.key) (hadvances : ∀ r, p r = true → Advances r (f r))
    (hdelivered : ∀ r, (f r).deliveredAt = r.deliveredAt) : Quiet s { s with outbox := s.outbox.update p f hf } where
  valid h := h
  ext := .of_update hf hkey hadvances
  delivered k h := by
    obtain ⟨r, hr, hd⟩ := h
    have hr := (ticket_update hf hkey k).symm.trans hr
    obtain ⟨r₀, hr₀, rfl⟩ := Option.map_eq_some_iff.1 hr
    refine ⟨r₀, hr₀, ?_⟩
    split at hd
    · rwa [hdelivered] at hd
    · exact hd
  drainPromise := rfl
  wakeRequested := rfl
  closed := rfl
  log := rfl

theorem quiet_upsert (ticket : CaptureTicketDelivery) (now : Int) : Quiet s (s.upsert ticket now) := by
  unfold upsert
  split
  · next outbox hinsert =>
    have hfind : ∀ k, outbox.rows.find? (fun r => r.key = k) = (s.ticket? k).or _ := fun k => Table.find?_insert? hinsert _
    refine ⟨fun h => h, ⟨fun k r hr => ⟨r, ?_, .refl r⟩, fun _ _ _ h => h⟩, ?_, rfl, rfl, rfl, rfl⟩
    · exact (hfind k).trans (by rw [hr, Option.some_or])
    · rintro k ⟨r, hr, hd⟩
      have hr := (hfind k).symm.trans hr
      cases hold : s.ticket? k with
      | some r₀ =>
        rw [hold, Option.some_or] at hr
        exact ⟨r₀, hold, by rwa [Option.some.inj hr]⟩
      | none =>
        rw [hold, Option.none_or] at hr
        split at hr
        · rw [← Option.some.inj hr] at hd
          cases hd
        · cases hr
  · refine .of_update _ (fun _ => rfl) (fun r hp => ?_) fun _ => rfl
    refine ⟨rfl, fun a ha => ?_, fun c hc => ?_, fun _ h => h, fun _ h => h⟩
    · show r.memoryAuthorityId.or _ = _
      rw [ha, Option.some_or]
    · show r.captureTool.or _ = _
      rw [hc, Option.some_or]

theorem trim_idem (t : Text) : trim (trim t) = trim t := Js.trimChars_idem t

theorem quiet_bind (tenantId jobId : Text) (authority : Authority) (now : Int) :
    Quiet s (s.bindMemoryJob tenantId jobId authority now).2 := by
  have hstored : ∀ row : AuthorityRow, WellBound row →
      Quiet s { s with authorities := (s.authorities.insert? row).getD s.authorities } := by
    intro row hrow
    cases hinsert : s.authorities.insert? row with
    | none => exact .refl s
    | some table =>
      refine ⟨fun hv other hother => ?_, ⟨fun k r h => ⟨r, h, .refl r⟩, fun t j a ha => ?_⟩, fun _ h => h, rfl, rfl, rfl, rfl⟩
      · rw [Option.getD_some, (Table.insert?_eq_some.1 hinsert).2, List.mem_append, List.mem_singleton] at hother
        rcases hother with hother | heq
        · exact hv other hother
        · exact heq ▸ hrow
      · obtain ⟨found, hfound, hauthority⟩ := Option.map_eq_some_iff.1 ha
        refine Option.map_eq_some_iff.2 ⟨found, ?_, hauthority⟩
        exact (Table.find?_insert? hinsert _).trans (by rw [hfound, Option.some_or])
  unfold bindMemoryJob
  split
  · exact .refl s
  · dsimp only
    split
    · exact .refl s
    · next hgood =>
      simp only [not_or, Bool.not_eq_false] at hgood
      have hrow : WellBound ⟨trim tenantId, trim jobId, ⟨trim authority.memoryAuthorityId, authority.captureTool⟩, now⟩ :=
        ⟨⟨trim_idem _, hgood.1⟩, ⟨trim_idem _, hgood.2.1⟩, ⟨trim_idem _, hgood.2.2⟩⟩
      split <;> exact hstored _ hrow

theorem quiet_observe (ticket : CaptureTicketDelivery) (times : Times) : Quiet s (s.observe ticket times).2 := by
  unfold observe
  split
  · exact .refl s
  · have hbind := @quiet_bind s ticket.key.tenantId ticket.jobId ticket.authority times.bound
    split
    · next e s₁ heq => rwa [heq] at hbind
    · next s₁ heq =>
      rw [heq] at hbind
      dsimp only
      split <;> exact hbind.trans (quiet_upsert ticket times.observed)

/-! ## Acts -/

/-- What the loop of a pass does with what is left: the first ticket is offered. -/
def Producer.firstOffer (s : Producer) (tickets : List CaptureTicketDelivery) : List Event :=
  match tickets with
  | [] => []
  | ticket :: _ => if s.closed then [] else [.offered ticket]

theorem offer_log (tickets : List CaptureTicketDelivery) : (s.offer tickets).log = s.log ++ s.firstOffer tickets := by
  cases tickets with
  | nil => exact (List.append_nil _).symm
  | cons ticket rest =>
    unfold offer firstOffer
    dsimp only
    split
    · exact (List.append_nil _).symm
    · rfl

theorem quiet_offer (tickets : List CaptureTicketDelivery) :
    (s.offer tickets).outbox = s.outbox ∧ (s.offer tickets).authorities = s.authorities ∧
      (s.offer tickets).closed = s.closed ∧ (s.offer tickets).wakeRequested = s.wakeRequested := by
  cases tickets with
  | nil => exact ⟨rfl, rfl, rfl, rfl⟩
  | cons ticket rest =>
    unfold offer
    dsimp only
    split <;> exact ⟨rfl, rfl, rfl, rfl⟩

/-- One act of a producer, and what it adds to the log: a statement that delivers nothing, the start of a pass, a request
while there is one, an answer, and the end of a pass. -/
inductive Act (s : Producer) : List Event → Producer → Prop
  | quiet {q : Producer} (h : Quiet s q) : Act s [] q
  | start (hclosed : s.closed = false) (hpass : s.drainPromise = none ∨ s.drainPromise = some .ended) :
    Act s (s.firstOffer s.pending) ({ s with drainPromise := none, wakeRequested := false }.offer s.pending)
  | wake (hclosed : s.closed = false) (hpass : s.drainPromise ≠ none) : Act s [] { s with wakeRequested := true }
  | answer {ticket : CaptureTicketDelivery} {rest} (answer : Answer) (deliveredAt updatedAt : Int)
    (hpass : s.drainPromise = some (.offering ticket rest)) :
    Act s (.answered ticket answer :: s.firstOffer rest) (s.answer answer deliveredAt updatedAt)
  | idle (hpass : s.drainPromise = some .ended) (hwake : s.wakeRequested = false ∨ s.closed = true) :
    Act s [] { s with drainPromise := none }

inductive Acts : Producer → List Event → Producer → Prop
  | refl (s : Producer) : Acts s [] s
  | tail {a b c : Producer} {es es' : List Event} (h : Acts a es b) (ha : Act b es' c) : Acts a (es ++ es') c

theorem Acts.single {es : List Event} (h : Act s es s') : Acts s es s' := .tail (.refl s) h

theorem Acts.trans {es es' : List Event} (h : Acts s es s₁) (h' : Acts s₁ es' s₂) : Acts s (es ++ es') s₂ := by
  induction h' with
  | refl => rwa [List.append_nil]
  | tail _ ha ih => rw [← List.append_assoc]; exact .tail ih ha

theorem Acts.quiet (h : Quiet s s') : Acts s [] s' := .single (.quiet h)

theorem acts_requestDrain : ∃ es, Acts s es s.requestDrain := by
  unfold requestDrain
  split
  · exact ⟨[], .refl s⟩
  · next hclosed =>
    have hclosed : s.closed = false := Bool.eq_false_iff.2 hclosed
    split
    · next pass hpass => exact ⟨[], .single (.wake hclosed (by rw [hpass]; exact Option.some_ne_none pass))⟩
    · next hpass =>
      have hstart := Act.start hclosed (Or.inl hpass)
      obtain ⟨authorities, outbox, drainPromise, wakeRequested, closed, log⟩ := s
      cases hpass
      exact ⟨_, .single hstart⟩

theorem quiet_terminate (k : TicketKey) (now : Int) : Quiet s (s.terminate k now) := by
  refine .of_update _ (fun _ => rfl) (fun r _ => ?_) fun _ => rfl
  refine ⟨rfl, fun _ h => h, fun _ h => h, fun t ht => ?_, fun _ h => h⟩
  show r.terminalAt.or _ = _
  rw [ht, Option.some_or]

theorem acts_markTerminal (k : TicketKey) (now : Int) : ∃ es, Acts s es (s.markTerminal k now) := by
  obtain ⟨es, hes⟩ := @acts_requestDrain (s.terminate k now)
  exact ⟨_, (Acts.quiet (quiet_terminate k now)).trans hes⟩

theorem acts_observe (ticket : CaptureTicketDelivery) (times : Times) : Acts s [] (s.observe ticket times).2 :=
  .quiet (quiet_observe ticket times)

theorem acts_recoverRows (times : Nat → Times) (rows : List JournalRow) : ∃ es, Acts s es (recoverRows times rows s) := by
  induction rows generalizing s times with
  | nil => exact ⟨[], .refl s⟩
  | cons row rows ih =>
    unfold recoverRows
    split
    · exact ih _
    · next ticket _ =>
      have hobserve := @acts_observe s ticket (times 0)
      split
      · next e s₁ heq =>
        rw [heq] at hobserve
        exact ⟨[], hobserve⟩
      · next s₁ heq =>
        rw [heq] at hobserve
        split
        · obtain ⟨es, hes⟩ := @acts_markTerminal s₁ row.key (times 0).marked
          obtain ⟨es', hes'⟩ := @ih (s₁.markTerminal row.key (times 0).marked) fun i => times (i + 1)
          exact ⟨_, (hobserve.trans hes).trans hes'⟩
        · obtain ⟨es', hes'⟩ := @ih s₁ fun i => times (i + 1)
          exact ⟨_, hobserve.trans hes'⟩

/-- The moves that end a process, or its passes. -/
def Move.isEnd : Move → Bool
  | .close | .restart => true
  | _ => false

/-- **Every other move is a course of acts.** -/
theorem acts_step {m : Move} (h : m.isEnd = false) : ∃ es, Acts s es (s.step m) := by
  cases m with
  | bindMemoryJob tenantId jobId authority now => exact ⟨[], .quiet (quiet_bind tenantId jobId authority now)⟩
  | observe ticket times => exact ⟨[], acts_observe ticket times⟩
  | observeJob key jobId terminal times =>
    show ∃ es, Acts s es (s.observeJob key jobId terminal times).2
    unfold observeJob
    split
    · exact ⟨[], .refl s⟩
    · next authority _ =>
      have hobserve := @acts_observe s ⟨key, jobId, authority⟩ times
      split
      · next e s₁ heq =>
        rw [heq] at hobserve
        exact ⟨[], hobserve⟩
      · next s₁ heq =>
        rw [heq] at hobserve
        dsimp only
        split
        · obtain ⟨es, hes⟩ := @acts_markTerminal s₁ key times.marked
          exact ⟨_, hobserve.trans hes⟩
        · exact ⟨[], hobserve⟩
  | resume =>
    show ∃ es, Acts s es s.resume
    unfold resume
    split
    · exact ⟨[], .refl s⟩
    · exact acts_requestDrain
  | recover journal times =>
    show ∃ es, Acts s es (s.recoverFromCaptureJournal journal times).2
    unfold recoverFromCaptureJournal
    split
    · exact ⟨[], .refl s⟩
    · split
      · exact ⟨[], .refl s⟩
      · exact acts_recoverRows times _
  | answer answer deliveredAt updatedAt =>
    show ∃ es, Acts s es (s.answer answer deliveredAt updatedAt)
    cases hpass : s.drainPromise with
    | none => exact ⟨[], by unfold Producer.answer; rw [hpass]; exact .refl s⟩
    | some pass =>
      cases pass with
      | offering ticket rest => exact ⟨_, .single (.answer answer deliveredAt updatedAt hpass)⟩
      | ended => exact ⟨[], by unfold Producer.answer; rw [hpass]; exact .refl s⟩
  | settle =>
    show ∃ es, Acts s es s.settle
    unfold settle
    split
    · next hpass =>
      dsimp only
      split
      · unfold requestDrain
        dsimp only
        split
        · next hclosed => exact ⟨[], .single (.idle hpass (Or.inr hclosed))⟩
        · next hclosed => exact ⟨_, .single (.start (Bool.eq_false_iff.2 hclosed) (Or.inr hpass))⟩
      · next hwake => exact ⟨[], .single (.idle hpass (Or.inl (Bool.eq_false_iff.2 hwake)))⟩
    · exact ⟨[], .refl s⟩
  | close => cases h
  | restart => cases h

end Zenod.Capture
