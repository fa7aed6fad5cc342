/-
What the producer recovers of the capture journal, and what holds over its
whole life.

`tickets_recovered_iff`: the identity of a ticket is fixed, no wake-up is lost
and nothing is delivered twice; but a row whose ticket is another one ends the
recovery, and what stands behind it is not recovered.
-/
import Zenod.Capture.Wakeup

namespace Zenod.Capture

open Keyed Text Producer

variable {s s' s₁ s₂ : Producer} {k : TicketKey} {r : TicketRow} {ticket : CaptureTicketDelivery} {row : JournalRow}
  {times : Times}

/-! ## One row -/

/-- A binding that is there is found again, and nothing is written. -/
theorem bind_bound {tenantId jobId : Text} {authority : Authority} (hvalid : Valid s) (hclosed : s.closed = false)
    (h : s.memoryJobAuthority tenantId jobId = some authority) (now : Int) :
    s.bindMemoryJob tenantId jobId authority now = (.ok (), s) := by
  obtain ⟨found, hfound, rfl⟩ := Option.map_eq_some_iff.1 h
  have hmem := List.mem_of_find?_eq_some hfound
  have hkey := List.find?_some hfound
  simp only [Bool.and_eq_true, decide_eq_true_eq] at hkey
  obtain ⟨rfl, rfl⟩ := hkey
  have hbound := hvalid found hmem
  have htrimmed : (⟨trim found.authority.memoryAuthorityId, found.authority.captureTool⟩ : Authority) = found.authority := by
    rw [hbound.memoryAuthorityId.1]
  have hinsert : s.authorities.insert? ⟨found.tenantId, found.jobId, found.authority, now⟩ = none := by
    by_contra hne
    obtain ⟨table, htable⟩ := Option.ne_none_iff_exists'.1 hne
    have hclash := (Table.insert?_eq_some.1 htable).1 found hmem
    simp [clash] at hclash
  unfold bindMemoryJob
  rw [if_neg (by rw [hclosed]; decide)]
  simp only [hbound.tenantId.1, hbound.jobId.1, htrimmed, hinsert, Option.getD_none]
  rw [if_neg (by simp [hbound.tenantId.2, hbound.jobId.2, hbound.memoryAuthorityId.1, hbound.memoryAuthorityId.2]), if_pos h]

/-- The ticket of a row is absent, or may be the row's. -/
def Consistent (s : Producer) (ticket : CaptureTicketDelivery) : Prop :=
  ∀ r, s.ticket? ticket.key = some r → r.agrees ticket = true

theorem upsert_ticket (now : Int) (k : TicketKey) : (s.upsert ticket now).ticket? k =
    if k = ticket.key then
      some ((s.ticket? k).elim (ticket.row now) fun r => if r.agrees ticket then r.completed ticket now else r)
    else s.ticket? k := by
  unfold upsert
  split
  · next outbox hinsert =>
    have hfind : (outbox.rows.find? fun r => r.key = k) = (s.ticket? k).or _ := Table.find?_insert? hinsert _
    refine hfind.trans ?_
    by_cases hk : k = ticket.key
    · have hnone : s.ticket? k = none := by
        by_contra hne
        obtain ⟨r, hr⟩ := Option.ne_none_iff_exists'.1 hne
        obtain ⟨hmem, hkey⟩ := ticket_spec hr
        have hclash := (Table.insert?_eq_some.1 hinsert).1 r hmem
        simp [clash, CaptureTicketDelivery.row, hkey, hk] at hclash
      rw [hnone, if_pos hk]
      simp [CaptureTicketDelivery.row, hk]
    · rw [if_neg hk]
      simp [CaptureTicketDelivery.row, Ne.symm hk]
  · next hinsert =>
    have hfind := @ticket_update s (fun r => r.key = ticket.key && r.agrees ticket) (fun r => r.completed ticket now)
      (fun _ _ => rfl) (fun _ => rfl) k
    refine hfind.trans ?_
    by_cases hk : k = ticket.key
    · have hsome : ∃ r, s.ticket? k = some r := by
        by_contra hnone
        have hfree : ∀ r ∈ s.outbox.rows, clash r (ticket.row now) = false := by
          intro r hr
          by_contra hclash
          have hkey : r.key = k := by simpa [clash, CaptureTicketDelivery.row, hk] using hclash
          exact hnone ⟨r, hkey ▸ ticket_of_mem hr⟩
        obtain ⟨table, htable, -⟩ := Table.insert?_isSome hfree
        rw [htable] at hinsert
        cases hinsert
      obtain ⟨r, hr⟩ := hsome
      have hkey : r.key = ticket.key := (ticket_spec hr).2.trans hk
      rw [hr, if_pos hk, Option.map_some, Option.elim_some, hkey, decide_eq_true rfl, Bool.true_and]
    · rw [if_neg hk]
      cases hr : s.ticket? k with
      | none => rfl
      | some r =>
        have hkey : r.key ≠ ticket.key := (ticket_spec hr).2 ▸ hk
        rw [Option.map_some, decide_eq_false hkey, Bool.false_and]
        rfl

theorem isOf_completed (h : r.agrees ticket = true) (now : Int) : (r.completed ticket now).isOf ticket = true := by
  simp only [TicketRow.agrees, Bool.and_eq_true, decide_eq_true_eq] at h
  obtain ⟨⟨hjob, hmemory⟩, htool⟩ := h
  simp only [TicketRow.isOf, Bool.and_eq_true, decide_eq_true_eq]
  refine ⟨⟨hjob, ?_⟩, ?_⟩
  · show r.memoryAuthorityId.or _ = _
    cases hm : r.memoryAuthorityId with
    | none => rfl
    | some a =>
      rw [hm, Option.all_some, decide_eq_true_eq] at hmemory
      rw [Option.some_or, hmemory]
  · show r.captureTool.or _ = _
    cases hc : r.captureTool with
    | none => rfl
    | some c =>
      rw [hc, Option.all_some, decide_eq_true_eq] at htool
      rw [Option.some_or, htool]

theorem agrees_of_isOf (h : r.isOf ticket = true) : r.agrees ticket = true := by
  simp only [TicketRow.isOf, Bool.and_eq_true, decide_eq_true_eq] at h
  obtain ⟨⟨hjob, hmemory⟩, htool⟩ := h
  simp [TicketRow.agrees, hjob, hmemory, htool]

/-- What a row has left alone: the authorities, and the other tickets. -/
structure Passed (s s' : Producer) (k : TicketKey) : Prop where
  authorities : s'.authorities = s.authorities
  closed : s'.closed = s.closed
  others : ∀ j, j ≠ k → s'.ticket? j = s.ticket? j

/-- **An observation of a bound job**: the ticket is stored if it is consistent, and refused otherwise. -/
theorem observe_bound (hvalid : Valid s) (hclosed : s.closed = false)
    (h : s.memoryJobAuthority ticket.key.tenantId ticket.jobId = some ticket.authority) :
    (Consistent s ticket → s.observe ticket times = (.ok (), s.upsert ticket times.observed)) ∧
      (¬Consistent s ticket → s.observe ticket times = (.error .changedIdentity, s.upsert ticket times.observed)) := by
  have hobserve : s.observe ticket times =
      if ((s.upsert ticket times.observed).ticket? ticket.key).any fun r => r.isOf ticket then
        (.ok (), s.upsert ticket times.observed)
      else (.error .changedIdentity, s.upsert ticket times.observed) := by
    unfold observe
    rw [if_neg (by rw [hclosed]; decide), bind_bound hvalid hclosed h]
  rw [hobserve, upsert_ticket, if_pos rfl, Option.any_some]
  constructor
  · intro hconsistent
    refine if_pos ?_
    cases hr : s.ticket? ticket.key with
    | none => simp [CaptureTicketDelivery.row, TicketRow.isOf]
    | some r => rw [Option.elim_some, if_pos (hconsistent r hr)]; exact isOf_completed (hconsistent r hr) _
  · intro hconsistent
    refine if_neg fun hisOf => hconsistent fun r hr => ?_
    rw [hr, Option.elim_some] at hisOf
    split at hisOf
    · next hagrees => exact hagrees
    · exact agrees_of_isOf hisOf

/-- The row's ticket is in the outbox, and terminal if the row is done. -/
def Mirrored (s : Producer) (row : JournalRow) (ticket : CaptureTicketDelivery) : Prop :=
  ∃ r, s.ticket? row.key = some r ∧ r.isOf ticket = true ∧ (row.state = .done → r.terminalAt.isSome = true)

/-- The row names its job's authority, and its ticket is another one. -/
def Bad (s : Producer) (row : JournalRow) : Prop := ∃ ticket, s.journalTicket row = some ticket ∧ ¬Consistent s ticket

theorem journalTicket_spec (h : s.journalTicket row = some ticket) :
    ticket.key = row.key ∧ s.memoryJobAuthority ticket.key.tenantId ticket.jobId = some ticket.authority := by
  unfold journalTicket at h
  split at h
  · next tool authority _ hauthority =>
    split at h
    · cases h
      exact ⟨rfl, hauthority⟩
    · cases h
  · cases h

theorem tables_requestDrain (s : Producer) :
    s.requestDrain.outbox = s.outbox ∧ s.requestDrain.authorities = s.authorities ∧ s.requestDrain.closed = s.closed := by
  unfold requestDrain
  split
  · exact ⟨rfl, rfl, rfl⟩
  · split
    · exact ⟨rfl, rfl, rfl⟩
    · obtain ⟨houtbox, hauthorities, hclosed, -⟩ := @quiet_offer { s with wakeRequested := false } s.pending
      exact ⟨houtbox, hauthorities, hclosed⟩

theorem markTerminal_ticket (k : TicketKey) (now : Int) (j : TicketKey) : (s.markTerminal k now).ticket? j =
    (s.ticket? j).map fun r => if r.key = k then { r with terminalAt := r.terminalAt.or (some now), updatedAt := now } else r := by
  unfold markTerminal
  obtain ⟨houtbox, -⟩ := tables_requestDrain (s.terminate k now)
  have hfind : (s.terminate k now).requestDrain.ticket? j = (s.terminate k now).ticket? j := by
    unfold ticket?
    rw [houtbox]
  have hterminated := @ticket_update s (·.key = k)
    (fun r => { r with terminalAt := r.terminalAt.or (some now), updatedAt := now }) (fun _ _ => rfl) (fun _ => rfl) j
  simp only [decide_eq_true_eq] at hterminated
  exact hfind.trans hterminated

theorem passed_upsert (now : Int) : Passed s (s.upsert ticket now) ticket.key where
  authorities := by unfold upsert; split <;> rfl
  closed := by unfold upsert; split <;> rfl
  others j hj := by rw [upsert_ticket, if_neg hj]

/-- **What one row does**: its ticket is mirrored, with a terminal mark if it is done; or the row throws. -/
theorem recoverRows_cons (hvalid : Valid s) (hclosed : s.closed = false) (times : Nat → Times) (row : JournalRow)
    (rows : List JournalRow) :
    (s.journalTicket row = none ∧ recoverRows times (row :: rows) s = recoverRows (fun i => times (i + 1)) rows s) ∨
    (∃ ticket, s.journalTicket row = some ticket ∧ Consistent s ticket ∧ ∃ s₁, Passed s s₁ row.key ∧ Mirrored s₁ row ticket ∧
      recoverRows times (row :: rows) s = recoverRows (fun i => times (i + 1)) rows s₁) ∨
    (Bad s row ∧ ∀ j, (recoverRows times (row :: rows) s).ticket? j = s.ticket? j) := by
  cases hticket : s.journalTicket row with
  | none => exact Or.inl ⟨rfl, by rw [recoverRows, hticket]⟩
  | some ticket =>
    obtain ⟨hkey, hauthority⟩ := journalTicket_spec hticket
    obtain ⟨hgood, hbad⟩ := @observe_bound s ticket (times 0) hvalid hclosed hauthority
    have hpassed : Passed s (s.upsert ticket (times 0).observed) row.key := hkey ▸ passed_upsert _
    by_cases hconsistent : Consistent s ticket
    · refine Or.inr (Or.inl ⟨ticket, rfl, hconsistent, ?_⟩)
      have hstored : ∃ r, (s.upsert ticket (times 0).observed).ticket? row.key = some r ∧ r.isOf ticket = true := by
        rw [← hkey, upsert_ticket, if_pos rfl]
        refine ⟨_, rfl, ?_⟩
        cases hr : s.ticket? ticket.key with
        | none => simp [CaptureTicketDelivery.row, TicketRow.isOf]
        | some r => rw [Option.elim_some, if_pos (hconsistent r hr)]; exact isOf_completed (hconsistent r hr) _
      obtain ⟨r, hr, hisOf⟩ := hstored
      rw [recoverRows, hticket]
      simp only [hgood hconsistent]
      by_cases hdone : row.state = .done
      · refine ⟨(s.upsert ticket (times 0).observed).markTerminal row.key (times 0).marked, ⟨?_, ?_, fun j hj => ?_⟩, ?_, ?_⟩
        · exact (tables_requestDrain _).2.1.trans hpassed.authorities
        · exact (tables_requestDrain _).2.2.trans hpassed.closed
        · rw [markTerminal_ticket, hpassed.others j hj]
          cases hother : s.ticket? j with
          | none => rfl
          | some other => rw [Option.map_some, if_neg fun h => hj ((ticket_spec hother).2.symm.trans h)]
        · refine ⟨{ r with terminalAt := r.terminalAt.or (some (times 0).marked), updatedAt := (times 0).marked }, ?_, hisOf, ?_⟩
          · rw [markTerminal_ticket, hr, Option.map_some, if_pos (ticket_spec hr).2]
          · intro _
            cases hterminal : r.terminalAt <;> rfl
        · rw [if_pos hdone]
      · exact ⟨_, hpassed, ⟨r, hr, hisOf, fun h => absurd h hdone⟩, by rw [if_neg hdone]⟩
    · refine Or.inr (Or.inr ⟨⟨ticket, hticket, hconsistent⟩, fun j => ?_⟩)
      rw [recoverRows, hticket]
      simp only [hbad hconsistent]
      rw [upsert_ticket]
      split
      · next hj =>
        unfold Consistent at hconsistent
        simp only [not_forall] at hconsistent
        obtain ⟨r, hr, hagrees⟩ := hconsistent
        rw [hj, hr, Option.elim_some, if_neg hagrees]
      · rfl

/-! ## All rows -/

namespace Passed

variable (h : Passed s s₁ k)
include h

theorem valid (hvalid : Valid s) : Valid s₁ := by
  unfold Valid
  rwa [h.authorities]

theorem journalTicket (row : JournalRow) : s₁.journalTicket row = s.journalTicket row := by
  unfold Producer.journalTicket memoryJobAuthority
  rw [h.authorities]

theorem consistent (hne : ticket.key ≠ k) : Consistent s₁ ticket ↔ Consistent s ticket := by
  unfold Consistent
  rw [h.others _ hne]

theorem bad (hne : row.key ≠ k) : Bad s₁ row ↔ Bad s row := by
  unfold Bad
  rw [h.journalTicket]
  refine exists_congr fun ticket => and_congr_right fun hticket => not_congr (h.consistent ?_)
  rwa [(journalTicket_spec hticket).1]

end Passed

/-- **The loop of the recovery**: each row before the first bad one is mirrored, the tickets behind it are left alone. -/
theorem recoverRows_spec (hvalid : Valid s) (hclosed : s.closed = false) (times : Nat → Times) {rows : List JournalRow}
    (hdistinct : rows.Pairwise fun a b => a.key ≠ b.key) :
    (∀ j, (∀ row ∈ rows, row.key ≠ j) → (recoverRows times rows s).ticket? j = s.ticket? j) ∧
    ∀ pre row post ticket, rows = pre ++ row :: post → s.journalTicket row = some ticket → Consistent s ticket →
      ((∀ b ∈ pre, ¬Bad s b) → Mirrored (recoverRows times rows s) row ticket) ∧
      ((∃ b ∈ pre, Bad s b) → (recoverRows times rows s).ticket? row.key = s.ticket? row.key) := by
  induction rows generalizing s times with
  | nil =>
    refine ⟨fun _ _ => rfl, fun pre row post ticket heq => ?_⟩
    cases pre <;> cases heq
  | cons head rows ih =>
    rw [List.pairwise_cons] at hdistinct
    rcases recoverRows_cons hvalid hclosed times head rows with
      ⟨hnone, heq⟩ | ⟨found, hfound, hconsistent, s₁, hpassed, hmirrored, heq⟩ | ⟨hbad, hsame⟩
    · obtain ⟨hothers, hrows⟩ := ih hvalid hclosed (fun i => times (i + 1)) hdistinct.2
      rw [heq]
      refine ⟨fun j hj => hothers j fun row hrow => hj row (List.mem_cons_of_mem _ hrow), ?_⟩
      intro pre row post ticket hsplit hticket hconsistent
      cases pre with
      | nil =>
        cases hsplit
        rw [hnone] at hticket
        cases hticket
      | cons first pre =>
        cases hsplit
        obtain ⟨hgood, hbehind⟩ := hrows pre row post ticket rfl hticket hconsistent
        refine ⟨fun h => hgood fun b hb => h b (List.mem_cons_of_mem _ hb), ?_⟩
        rintro ⟨b, hb, hbad⟩
        rcases List.mem_cons.1 hb with rfl | hb
        · obtain ⟨t, ht, -⟩ := hbad
          rw [hnone] at ht
          cases ht
        · exact hbehind ⟨b, hb, hbad⟩
    · obtain ⟨hothers, hrows⟩ :=
        ih (hpassed.valid hvalid) (hpassed.closed.trans hclosed) (fun i => times (i + 1)) hdistinct.2
      rw [heq]
      refine ⟨fun j hj => ?_, ?_⟩
      · rw [hothers j fun row hrow => hj row (List.mem_cons_of_mem _ hrow)]
        exact hpassed.others j fun h => hj head List.mem_cons_self h.symm
      · intro pre row post ticket hsplit hticket hcons
        cases pre with
        | nil =>
          cases hsplit
          rw [hfound, Option.some.injEq] at hticket
          subst hticket
          refine ⟨fun _ => ?_, fun ⟨b, hb, _⟩ => absurd hb List.not_mem_nil⟩
          obtain ⟨r, hr, hisOf, hdone⟩ := hmirrored
          exact ⟨r, (hothers head.key fun row hrow => (hdistinct.1 row hrow).symm).trans hr, hisOf, hdone⟩
        | cons first pre =>
          cases hsplit
          have hne : ∀ b ∈ pre ++ row :: post, b.key ≠ head.key := fun b hb => (hdistinct.1 b hb).symm
          have hrow : row.key ≠ head.key := hne row (List.mem_append_right _ List.mem_cons_self)
          have hkey : ticket.key ≠ head.key := by rwa [(journalTicket_spec hticket).1]
          obtain ⟨hgood, hbehind⟩ := hrows pre row post ticket rfl ((hpassed.journalTicket row).trans hticket)
            ((hpassed.consistent hkey).2 hcons)
          refine ⟨fun h => hgood fun b hb hb' => ?_, ?_⟩
          · exact h b (List.mem_cons_of_mem _ hb) ((hpassed.bad (hne b (List.mem_append_left _ hb))).1 hb')
          · rintro ⟨b, hb, hbad⟩
            rw [← hpassed.others row.key hrow]
            rcases List.mem_cons.1 hb with rfl | hb
            · obtain ⟨t, ht, hinconsistent⟩ := hbad
              rw [hfound, Option.some.injEq] at ht
              exact absurd (ht ▸ hconsistent) hinconsistent
            · exact hbehind ⟨b, hb, (hpassed.bad (hne b (List.mem_append_left _ hb))).2 hbad⟩
    · refine ⟨fun j _ => hsame j, ?_⟩
      intro pre row post ticket hsplit hticket hcons
      cases pre with
      | nil =>
        cases hsplit
        obtain ⟨t, ht, hinconsistent⟩ := hbad
        rw [hticket, Option.some.injEq] at ht
        exact absurd (ht ▸ hcons) hinconsistent
      | cons first pre =>
        cases hsplit
        exact ⟨fun h => absurd hbad (h head List.mem_cons_self), fun _ => hsame row.key⟩

theorem Mirrored.mono (h : Mirrored s row ticket) (hextends : Extends s s') : Mirrored s' row ticket := by
  obtain ⟨r, hr, hisOf, hdone⟩ := h
  obtain ⟨r', hr', hadvances⟩ := hextends.tickets row.key r hr
  simp only [TicketRow.isOf, Bool.and_eq_true, decide_eq_true_eq] at hisOf
  refine ⟨r', hr', ?_, fun hstate => ?_⟩
  · simp only [TicketRow.isOf, Bool.and_eq_true, decide_eq_true_eq]
    exact ⟨⟨hadvances.jobId.trans hisOf.1.1, hadvances.memoryAuthorityId _ hisOf.1.2⟩, hadvances.captureTool _ hisOf.2⟩
  · obtain ⟨t, ht⟩ := Option.isSome_iff_exists.1 (hdone hstate)
    rw [hadvances.terminalAt t ht]
    rfl

/-- Every row that names its job's authority, with its ticket absent or its own, is mirrored. -/
def Recovers (s : Producer) (journal : Journal) (times : Nat → Times) : Prop :=
  ∀ row ∈ journal.rows, ∀ ticket, s.journalTicket row = some ticket → Consistent s ticket →
    Mirrored (s.recoverFromCaptureJournal (some journal) times).2 row ticket

theorem recovers_iff (hvalid : Valid s) (hclosed : s.closed = false) (journal : Journal) (times : Nat → Times) :
    Recovers s journal times ↔ ∀ pre row post ticket, journal.rows = pre ++ row :: post → s.journalTicket row = some ticket →
      Consistent s ticket → (∀ b ∈ pre, ¬Bad s b) ∨ Mirrored s row ticket := by
  have hrecover : (s.recoverFromCaptureJournal (some journal) times).2 = recoverRows times journal.rows s := by
    unfold recoverFromCaptureJournal
    rw [if_neg (by rw [hclosed]; decide)]
  obtain ⟨-, hrows⟩ := recoverRows_spec hvalid hclosed times journal.distinct
  unfold Recovers
  rw [hrecover]
  constructor
  · intro h pre row post ticket hsplit hticket hconsistent
    by_cases hbad : ∃ b ∈ pre, Bad s b
    · obtain ⟨r, hr, hrest⟩ := h row (by rw [hsplit]; simp) ticket hticket hconsistent
      rw [(hrows pre row post ticket hsplit hticket hconsistent).2 hbad] at hr
      exact Or.inr ⟨r, hr, hrest⟩
    · exact Or.inl fun b hb hb' => hbad ⟨b, hb, hb'⟩
  · intro h row hrow ticket hticket hconsistent
    obtain ⟨pre, post, hsplit⟩ := List.append_of_mem hrow
    rcases h pre row post ticket hsplit hticket hconsistent with hgood | hmirrored
    · exact (hrows pre row post ticket hsplit hticket hconsistent).1 hgood
    · obtain ⟨es, hacts⟩ := @acts_recoverRows s times journal.rows
      exact hmirrored.mono hacts.ext

/-! ## The life of a producer -/

theorem ext_step (m : Move) : Extends s (s.step m) := by
  by_cases hend : m.isEnd = true
  · cases m with
    | close => exact .of_tables rfl rfl
    | restart => exact .of_tables rfl rfl
    | _ => cases hend
  · obtain ⟨es, hacts⟩ := @acts_step s m (Bool.eq_false_iff.2 hend)
    exact hacts.ext

/-- What every producer keeps. -/
structure Sound (s : Producer) : Prop where
  valid : Valid s
  passOk : PassOk s

theorem sound_step (h : Sound s) (m : Move) : Sound (s.step m) := by
  by_cases hend : m.isEnd = true
  · cases m with
    | close => exact ⟨h.valid, h.passOk⟩
    | restart => exact ⟨h.valid, passOk_of_none fun _ _ hpass => by cases hpass⟩
    | _ => cases hend
  · obtain ⟨es, hacts⟩ := @acts_step s m (Bool.eq_false_iff.2 hend)
    exact ⟨hacts.valid h.valid, hacts.passOk h.passOk⟩

theorem sound_run (h : Sound s) (moves : List Move) : Sound (s.run moves) := by
  induction moves generalizing s with
  | nil => exact h
  | cons m moves ih => exact ih (sound_step h m)

theorem ext_run (moves : List Move) : Extends s (s.run moves) := by
  induction moves generalizing s with
  | nil => exact .refl s
  | cons m moves ih => exact (ext_step m).trans ih

/-- What a run adds to the log: a ticket that is delivered behind it was before, or its offer was answered so; and none
is offered that was delivered. -/
structure Logged (s s' : Producer) (es : List Event) : Prop where
  log : s'.log = s.log ++ es
  delivered : ∀ k, Delivered s' k → Delivered s k ∨
    ∃ ticket answer, ticket.key = k ∧ answer.isDone = true ∧ .answered ticket answer ∈ es
  offered : ∀ k, Delivered s k → ¬OfferedIn k es

theorem logged_step (h : Sound s) (m : Move) : ∃ es, Logged s (s.step m) es := by
  by_cases hend : m.isEnd = true
  · refine ⟨[], ?_⟩
    cases m with
    | close => exact ⟨(List.append_nil _).symm, fun _ hd => Or.inl hd, fun _ _ ⟨_, _, hmem⟩ => by cases hmem⟩
    | restart => exact ⟨(List.append_nil _).symm, fun _ hd => Or.inl hd, fun _ _ ⟨_, _, hmem⟩ => by cases hmem⟩
    | _ => cases hend
  · obtain ⟨es, hacts⟩ := @acts_step s m (Bool.eq_false_iff.2 hend)
    refine ⟨es, hacts.log, fun k hd => hacts.delivered hd, ?_⟩
    rintro k hd ⟨ticket, rfl, hmem⟩
    exact hacts.offered h.passOk hmem hd

theorem logged_run (h : Sound s) (moves : List Move) : ∃ es, Logged s (s.run moves) es := by
  induction moves generalizing s with
  | nil => exact ⟨[], (List.append_nil _).symm, fun _ hd => Or.inl hd, fun _ _ ⟨_, _, hmem⟩ => by cases hmem⟩
  | cons m moves ih =>
    obtain ⟨es, hstep⟩ := logged_step h m
    obtain ⟨es', hrun⟩ := ih (sound_step h m)
    refine ⟨es ++ es', ?_, fun k hd => ?_, ?_⟩
    · rw [← List.append_assoc, ← hstep.log]
      exact hrun.log
    · rcases hrun.delivered k hd with hd | ⟨ticket, answer, hkey, hdone, hmem⟩
      · rcases hstep.delivered k hd with hd | ⟨ticket, answer, hkey, hdone, hmem⟩
        · exact Or.inl hd
        · exact Or.inr ⟨ticket, answer, hkey, hdone, List.mem_append_left _ hmem⟩
      · exact Or.inr ⟨ticket, answer, hkey, hdone, List.mem_append_right _ hmem⟩
    · rintro k hd ⟨ticket, hkey, hmem⟩
      rcases List.mem_append.1 hmem with hmem | hmem
      · exact hstep.offered k hd ⟨ticket, hkey, hmem⟩
      · exact hrun.offered k (hd.mono (ext_step m)) ⟨ticket, hkey, hmem⟩

/-- A run of one process that is not closed is a course of acts. -/
theorem acts_run {moves : List Move} (hend : ∀ m ∈ moves, m.isEnd = false) : ∃ es, Acts s es (s.run moves) := by
  induction moves generalizing s with
  | nil => exact ⟨[], .refl s⟩
  | cons m moves ih =>
    obtain ⟨es, hacts⟩ := @acts_step s m (hend m List.mem_cons_self)
    obtain ⟨es', hacts'⟩ := @ih (s.step m) fun m hm => hend m (List.mem_cons_of_mem _ hm)
    exact ⟨_, hacts.trans hacts'⟩

theorem awaiting_requestDrain (hclosed : s.closed = false) (hactive : s.drainPromise ≠ none) (hdue : Due s k) :
    Awaiting s.requestDrain k := by
  obtain ⟨pass, hpass⟩ := Option.ne_none_iff_exists'.1 hactive
  have heq : s.requestDrain = { s with wakeRequested := true } := by
    unfold requestDrain
    rw [if_neg (by rw [hclosed]; decide), hpass]
  rw [heq]
  exact Or.inr ⟨hactive, rfl, hdue⟩

/-- **The capture outbox.** What is set in a ticket and a job's authority stay. The recovery of a journal mirrors all rows
that it should exactly when no bad row stands before one of them that was not mirrored yet. A ticket is delivered by an
answer to its offer and not offered again; a pass that starts comes to every ticket that is due; and one that becomes due
while a pass is at work is awaited, until it is offered or the offer that was under way is answered. -/
theorem tickets_recovered_iff (outbox : Table TicketRow) (moves : List Move) :
    (∀ later k r, (Producer.run { outbox := outbox } moves).ticket? k = some r →
      ∃ r', (Producer.run { outbox := outbox } (moves ++ later)).ticket? k = some r' ∧ r'.jobId = r.jobId ∧
        (∀ a, r.memoryAuthorityId = some a → r'.memoryAuthorityId = some a) ∧
        ∀ c, r.captureTool = some c → r'.captureTool = some c) ∧
    (∀ later tenantId jobId a, (Producer.run { outbox := outbox } moves).memoryJobAuthority tenantId jobId = some a →
      (Producer.run { outbox := outbox } (moves ++ later)).memoryJobAuthority tenantId jobId = some a) ∧
    ∀ s, s = Producer.run { outbox := outbox } moves →
      (∀ journal times, s.closed = false → (Recovers s journal times ↔
        ∀ pre row post ticket, journal.rows = pre ++ row :: post → s.journalTicket row = some ticket → Consistent s ticket →
          (∀ b ∈ pre, ¬Bad s b) ∨ Mirrored s row ticket)) ∧
      (∀ later, ∃ es, (s.run later).log = s.log ++ es ∧
        (∀ k, Delivered (s.run later) k → Delivered s k ∨
          ∃ ticket answer, ticket.key = k ∧ answer.isDone = true ∧ .answered ticket answer ∈ es) ∧
        ∀ k, Delivered s k → ¬OfferedIn k es) ∧
      ∀ k, s.closed = false →
        (∀ later, (∀ m ∈ later, m.isEnd = false) → ∃ es, (s.run later).log = s.log ++ es ∧
          (Resting s → Due s k → (Resting (s.run later) ∧ es = []) ∨ OfferedIn k es ∨ OnList (s.run later) k) ∧
          (Awaiting s k → OfferedIn k es ∨ AnsweredIn k es ∨ Awaiting (s.run later) k)) ∧
        ∀ now, s.drainPromise ≠ none → Due (s.terminate k now) k → Awaiting (s.markTerminal k now) k := by
  have hsound : Sound { outbox := outbox } :=
    ⟨fun row hrow => (by cases hrow), passOk_of_none fun _ _ hpass => by cases hpass⟩
  refine ⟨fun later k r hr => ?_, fun later t j a ha => ?_, ?_⟩
  · obtain ⟨r', hr', hadvances⟩ := (ext_run later).tickets k r hr
    refine ⟨r', ?_, hadvances.jobId, hadvances.memoryAuthorityId, hadvances.captureTool⟩
    rwa [Producer.run, List.foldl_append]
  · rw [Producer.run, List.foldl_append]
    exact (ext_run later).authorities t j a ha
  · rintro s rfl
    have hrun := sound_run hsound moves
    refine ⟨fun journal times hclosed => recovers_iff hrun.valid hclosed journal times, fun later => ?_, fun k hclosed => ⟨?_, ?_⟩⟩
    · obtain ⟨es, hlog⟩ := logged_run hrun later
      exact ⟨es, hlog.log, hlog.delivered, hlog.offered⟩
    · intro later hend
      obtain ⟨es, hacts⟩ := acts_run hend
      refine ⟨es, hacts.log, fun hrest hdue => ?_, hacts.awaiting hclosed⟩
      exact (hacts.resting hclosed hrest hdue).imp_left fun h => ⟨h.1, h.2.2⟩
    · intro now hactive hdue
      exact @awaiting_requestDrain (Producer.terminate _ k now) k hclosed hactive hdue

/-! ## A journal with a job that was accepted anew -/

def sampleAuthority : Authority :=
  ⟨"memory-authority-v1:".toList ++ List.replicate 64 '0', .storeMemory⟩

def sampleKey (message : Text) : TicketKey := ⟨"acme".toList, .whatsapp, "chat".toList, message⟩

/-- A ticket is observed for a first job; the journal has its message under a second job, and another message behind it. -/
def sampleMoves : List Move :=
  [.observe ⟨sampleKey "1".toList, "first".toList, sampleAuthority⟩ {},
    .bindMemoryJob "acme".toList "second".toList sampleAuthority 0, .bindMemoryJob "acme".toList "third".toList sampleAuthority 0]

def sampleJournal : Journal where
  rows := [⟨sampleKey "1".toList, "second".toList, "store_memory".toList, .polling⟩,
    ⟨sampleKey "2".toList, "third".toList, "store_memory".toList, .done⟩]
  distinct := by decide

theorem message_not_recovered : ¬∀ outbox moves journal times, (Producer.run { outbox := outbox } moves).closed = false →
    Recovers (Producer.run { outbox := outbox } moves) journal times := by
  intro h
  have hticket : (Producer.run {} sampleMoves).journalTicket ⟨sampleKey "2".toList, "third".toList, "store_memory".toList, .done⟩ =
      some ⟨sampleKey "2".toList, "third".toList, sampleAuthority⟩ := by decide +kernel
  have habsent : (Producer.run {} sampleMoves).ticket? (sampleKey "2".toList) = none := by decide +kernel
  have hrow : (⟨sampleKey "2".toList, "third".toList, "store_memory".toList, .done⟩ : JournalRow) ∈ sampleJournal.rows :=
    List.mem_cons_of_mem _ (List.mem_singleton_self _)
  obtain ⟨r, hr, -⟩ := h .empty sampleMoves sampleJournal (fun _ => {}) (by decide +kernel) _ hrow _ hticket
    fun r hr => by rw [habsent] at hr; cases hr
  have hmissing : ((Producer.run {} sampleMoves).recoverFromCaptureJournal (some sampleJournal) fun _ => {}).2.ticket?
      (sampleKey "2".toList) = none := by decide +kernel
  rw [show (_ : Producer).ticket? _ = none from hmissing] at hr
  cases hr

end Zenod.Capture
