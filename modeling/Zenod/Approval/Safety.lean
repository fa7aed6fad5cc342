/-
Exact approvals over whole runs. Beside the tokens, a ledger keeps what the
runs of the guard mean: which operation is held under a conversation, an owner
and a tool, and which holds were used up by an execution.

`guard_safe`: where no held operation has an argument named like an internal
approval field and no state is put back that was used up or cancelled since, an
operation of elevated risk runs only under an unexpired hold of the same
arguments, and no hold serves twice.
-/
import Zenod.Approval.Held

namespace Zenod.Approval

open Text

/-! ## What is held -/

/-- An operation that was held, by the step that held it. -/
structure Hold where
  step : Nat
  args : Args
  expiresAt : Int

/-- A conversation, an owner and a tool. -/
abbrev Place := Text × Text × Text

/-- The holds that stand: neither used, cancelled nor replaced. -/
structure Ledger where
  step : Nat := 0
  standing : Place → Option Hold := fun _ => none
  used : List Nat := []

namespace Ledger

def hold (l : Ledger) (place : Place) (args : Args) (expiresAt : Int) : Ledger :=
  { l with standing := Function.update l.standing place (some ⟨l.step, args, expiresAt⟩) }

/-- An execution uses the hold up. -/
def use (l : Ledger) (place : Place) : Ledger :=
  { l with standing := Function.update l.standing place none, used := l.used ++ ((l.standing place).map (·.step)).toList }

def cancel (l : Ledger) (conversationId : Text) : Ledger :=
  { l with standing := fun place => if place.1 = conversationId then none else l.standing place }

def next (l : Ledger) : Ledger := { l with step := l.step + 1 }

end Ledger

/-! ## Runs -/

inductive ApprovalOp
  | guard (tool userRequest : Text) (context : PeerMutationGuardContext) (now : Nat → Int)
  /-- A peer refuses an operation that ran without a hold. -/
  | registerStandingApproval (conversationId owner tool : Text) (args : Args) (result description : Text) (now : Nat → Int)
  | registerApprovalToken (conversationId tool : Text) (content : Json) (now : Int)
  | registerOutboundComposeApprovalToken (conversationId : Text) (now : Int)
  | cancelStandingApprovals (conversationId : Text)
  /-- A snapshot, or a question that drops what is expired. -/
  | liveTokens (conversationId : Text) (now : Int)
  | hydrateApprovalTokens (conversationId : Text) (saved : List ApprovalToken) (now : Nat → Int)
  /-- Another process takes over, with nothing in memory. -/
  | restart

structure World where
  tokens : Tokens := fun _ => []
  ledger : Ledger := {}

/-- Where the operation that is proposed belongs. -/
def PeerMutationGuardContext.place (context : PeerMutationGuardContext) (tool conversationId : Text) : Place :=
  (conversationId, context.ownerId, (context.proposed tool).toolId)

variable (lib : Library)

def ApprovalOp.tokens (op : ApprovalOp) (tokens : Tokens) : Tokens :=
  match op with
  | .guard tool userRequest context now => (peerMutationGuardFailure lib tool userRequest context now tokens).2
  | .registerStandingApproval conversationId owner tool args result description now =>
    (Approval.registerStandingApproval lib conversationId owner tool args result description now tokens).2
  | .registerApprovalToken conversationId tool content now =>
    Approval.registerApprovalToken lib conversationId tool content now tokens
  | .registerOutboundComposeApprovalToken conversationId now =>
    Approval.registerOutboundComposeApprovalToken conversationId now tokens
  | .cancelStandingApprovals conversationId => Approval.cancelStandingApprovals conversationId tokens
  | .liveTokens conversationId now => Approval.liveTokens conversationId now tokens
  | .hydrateApprovalTokens conversationId saved now => Approval.hydrateApprovalTokens conversationId saved now tokens
  | .restart => fun _ => []

/-- What the step means for the holds. -/
def ApprovalOp.ledger (op : ApprovalOp) (w : World) : Ledger :=
  let l := w.ledger
  match op with
  | .guard tool userRequest context now =>
    match (peerMutationGuardFailure lib tool userRequest context now w.tokens).1, context.conversation with
    | some .approvalRequired, some conversationId =>
      l.hold (context.place tool conversationId) (context.proposed tool).input (now 0 + tokenTtlMs)
    | none, some conversationId =>
      if context.connectedMcp && isAffirmativeApproval lib userRequest then l.use (context.place tool conversationId) else l
    | _, _ => l
  | .registerStandingApproval conversationId owner tool args result description now =>
    if (Approval.registerStandingApproval lib conversationId owner tool args result description now w.tokens).1 then
      l.hold (conversationId, owner, tool) args (now 0 + tokenTtlMs)
    else l
  | .registerApprovalToken conversationId _ _ _ | .registerOutboundComposeApprovalToken conversationId _ |
    .cancelStandingApprovals conversationId => l.cancel conversationId
  | .liveTokens _ _ | .hydrateApprovalTokens _ _ _ | .restart => l

def ApprovalOp.after (op : ApprovalOp) (w : World) : World :=
  { tokens := op.tokens lib w.tokens, ledger := (op.ledger lib w).next }

def run (ops : List ApprovalOp) : World := ops.foldl (fun w op => op.after lib w) {}

/-- A connected operation whose risk is not known to be small runs only if the text approves it, under a hold of the
same conversation, owner, tool and arguments that stands and is not expired. -/
def Approved (w : World) : ApprovalOp → Prop
  | .guard tool userRequest context now => context.connectedMcp = true → context.disposition ≠ .execute →
    (peerMutationGuardFailure lib tool userRequest context now w.tokens).1 = none →
    isAffirmativeApproval lib userRequest = true ∧ ∃ conversationId hold, context.conversation = some conversationId ∧
      w.ledger.standing (context.place tool conversationId) = some hold ∧ now 0 < hold.expiresAt ∧
      exactArgsMatch lib hold.args (context.proposed tool).input = true
  | _ => True

/-- The token is that of a hold which stands. -/
def Backed (l : Ledger) (conversationId : Text) (token : ApprovalToken) : Prop :=
  ∀ owner args, token.owner = some owner → token.args = some args → owner ≠ [] →
    ∃ hold, l.standing (conversationId, owner, token.tool) = some hold ∧ hold.args = args ∧ hold.expiresAt = token.expiresAt

/-- No operation is held that has an argument named like an internal approval field, and what is put back stands. -/
def Careful (w : World) : ApprovalOp → Prop
  | .guard tool userRequest context _ => context.connectedMcp = true → context.disposition = .holdForExactApproval →
    isAffirmativeApproval lib userRequest = false → NoInternalKeys lib (context.proposed tool).input
  | .registerStandingApproval _ _ _ args result _ _ =>
    isApprovalRequiredResult lib result = true → NoInternalKeys lib args
  | .hydrateApprovalTokens conversationId saved _ => ∀ token ∈ saved, Backed w.ledger conversationId token
  | _ => True

/-! ## The holds of a run -/

/-- Each hold stands at one place, and none of those that were used stands. -/
structure LedgerOk (l : Ledger) : Prop where
  recent : ∀ place hold, l.standing place = some hold → hold.step < l.step ∧ hold.step ∉ l.used
  distinct : ∀ place place' hold hold', l.standing place = some hold → l.standing place' = some hold' →
    hold.step = hold'.step → place = place'
  used_lt : ∀ n ∈ l.used, n < l.step
  used_nodup : l.used.Nodup

variable {lib}

theorem LedgerOk.of_standing {l l' : Ledger} (h : LedgerOk l) (hstep : l'.step = l.step + 1) (hused : l'.used = l.used)
    (hstanding : ∀ place hold, l'.standing place = some hold → l.standing place = some hold) : LedgerOk l' where
  recent := fun place hold hp => by
    obtain ⟨hlt, hfresh⟩ := h.recent place hold (hstanding place hold hp)
    rw [hstep, hused]
    exact ⟨by omega, hfresh⟩
  distinct := fun place place' hold hold' hp hp' =>
    h.distinct place place' hold hold' (hstanding place hold hp) (hstanding place' hold' hp')
  used_lt := fun n hn => by
    rw [hused] at hn
    rw [hstep]
    exact Nat.lt_succ_of_lt (h.used_lt n hn)
  used_nodup := by rw [hused]; exact h.used_nodup

theorem LedgerOk.hold {l : Ledger} (h : LedgerOk l) (place : Place) (args : Args) (expiresAt : Int) :
    LedgerOk (l.hold place args expiresAt).next := by
  have hcases : ∀ q g, (l.hold place args expiresAt).next.standing q = some g →
      (q = place ∧ g.step = l.step) ∨ (q ≠ place ∧ l.standing q = some g) := by
    intro q g hq
    by_cases hqp : q = place
    · subst hqp
      have hq : Function.update l.standing q (some ⟨l.step, args, expiresAt⟩) q = some g := hq
      rw [Function.update_self] at hq
      cases hq
      exact Or.inl ⟨rfl, rfl⟩
    · have hq : Function.update l.standing place (some ⟨l.step, args, expiresAt⟩) q = some g := hq
      rw [Function.update_of_ne hqp] at hq
      exact Or.inr ⟨hqp, hq⟩
  refine ⟨fun q g hq => ?_, fun q q' g g' hq hq' hstep => ?_, fun n hn => ?_, h.used_nodup⟩
  · rcases hcases q g hq with ⟨-, hstep⟩ | ⟨-, hold⟩
    · rw [hstep]
      exact ⟨Nat.lt_succ_self _, fun hmem => Nat.lt_irrefl _ (h.used_lt _ hmem)⟩
    · exact ⟨Nat.lt_succ_of_lt (h.recent q g hold).1, (h.recent q g hold).2⟩
  · rcases hcases q g hq with ⟨rfl, hs⟩ | ⟨-, hold⟩
    · rcases hcases q' g' hq' with ⟨rfl, -⟩ | ⟨-, hold'⟩
      · rfl
      · exact absurd (h.recent q' g' hold').1 (by rw [← hstep, hs]; exact Nat.lt_irrefl _)
    · rcases hcases q' g' hq' with ⟨rfl, hs'⟩ | ⟨-, hold'⟩
      · exact absurd (h.recent q g hold).1 (by rw [hstep, hs']; exact Nat.lt_irrefl _)
      · exact h.distinct q q' g g' hold hold' hstep
  · exact Nat.lt_succ_of_lt (h.used_lt n hn)

theorem LedgerOk.use {l : Ledger} (h : LedgerOk l) (place : Place) : LedgerOk (l.use place).next := by
  have hcases : ∀ q g, (l.use place).next.standing q = some g → q ≠ place ∧ l.standing q = some g := by
    intro q g hq
    have hq : Function.update l.standing place none q = some g := hq
    by_cases hqp : q = place
    · subst hqp
      rw [Function.update_self] at hq
      cases hq
    · rw [Function.update_of_ne hqp] at hq
      exact ⟨hqp, hq⟩
  have hused : ∀ n ∈ (l.use place).used, n ∈ l.used ∨ ∃ g, l.standing place = some g ∧ g.step = n := by
    intro n hn
    rcases List.mem_append.1 hn with hn | hn
    · exact Or.inl hn
    · obtain ⟨g, hg, rfl⟩ := Option.map_eq_some_iff.1 (Option.mem_toList.1 hn)
      exact Or.inr ⟨g, hg, rfl⟩
  refine ⟨fun q g hq => ?_, fun q q' g g' hq hq' => h.distinct q q' g g' (hcases q g hq).2 (hcases q' g' hq').2,
    fun n hn => ?_, ?_⟩
  · obtain ⟨hne, hq⟩ := hcases q g hq
    refine ⟨Nat.lt_succ_of_lt (h.recent q g hq).1, fun hmem => ?_⟩
    rcases hused g.step hmem with hmem | ⟨g', hg', hstep⟩
    · exact (h.recent q g hq).2 hmem
    · exact hne (h.distinct q place g g' hq hg' hstep.symm)
  · rcases hused n hn with hn | ⟨g, hg, rfl⟩
    · exact Nat.lt_succ_of_lt (h.used_lt n hn)
    · exact Nat.lt_succ_of_lt (h.recent place g hg).1
  · show (l.used ++ ((l.standing place).map (·.step)).toList).Nodup
    cases hplace : l.standing place with
    | none =>
      rw [Option.map_none, Option.toList_none, List.append_nil]
      exact h.used_nodup
    | some g =>
      rw [Option.map_some, Option.toList_some]
      exact List.nodup_append.2 ⟨h.used_nodup, List.nodup_singleton _, fun a ha b hb hab =>
        (h.recent place g hplace).2 (List.mem_singleton.1 hb ▸ hab ▸ ha)⟩

theorem LedgerOk.after {w : World} (h : LedgerOk w.ledger) (op : ApprovalOp) : LedgerOk (op.after lib w).ledger := by
  have hsame : LedgerOk w.ledger.next := h.of_standing rfl rfl fun _ _ hp => hp
  have hcancel : ∀ conversationId, LedgerOk (w.ledger.cancel conversationId).next := fun conversationId => by
    refine h.of_standing rfl rfl fun place hold hp => ?_
    have hp : (if place.1 = conversationId then none else w.ledger.standing place) = some hold := hp
    split at hp
    next => cases hp
    next => exact hp
  cases op with
  | guard tool userRequest context now =>
    show LedgerOk (ApprovalOp.ledger lib (.guard tool userRequest context now) w).next
    unfold ApprovalOp.ledger
    simp only []
    split
    next => exact h.hold _ _ _
    next =>
      split
      next => exact h.use _
      next => exact hsame
    next => exact hsame
  | registerStandingApproval conversationId owner tool args result description now =>
    show LedgerOk (ApprovalOp.ledger lib
      (.registerStandingApproval conversationId owner tool args result description now) w).next
    unfold ApprovalOp.ledger
    simp only []
    split
    next => exact h.hold _ _ _
    next => exact hsame
  | registerApprovalToken conversationId tool content now => exact hcancel conversationId
  | registerOutboundComposeApprovalToken conversationId now => exact hcancel conversationId
  | cancelStandingApprovals conversationId => exact hcancel conversationId
  | liveTokens conversationId now => exact hsame
  | hydrateApprovalTokens conversationId saved now => exact hsame
  | restart => exact hsame

/-! ## The tokens of a run -/

/-- The invariant: each token that could release an operation is that of a hold which stands. -/
def AllBacked (w : World) : Prop := ∀ conversationId, ∀ t ∈ w.tokens conversationId, Backed w.ledger conversationId t

theorem Backed.of_standing {l l' : Ledger} {conversationId : Text} {t : ApprovalToken} (h : Backed l conversationId t)
    (hsame : ∀ owner, t.owner = some owner → l'.standing (conversationId, owner, t.tool) =
      l.standing (conversationId, owner, t.tool)) : Backed l' conversationId t := by
  intro owner args howner hargs hne
  obtain ⟨hold, hstanding, hrest⟩ := h owner args howner hargs hne
  exact ⟨hold, (hsame owner howner).trans hstanding, hrest⟩

theorem cleanArgs_eq {args : Args} (h : NoInternalKeys lib args) : cleanArgs lib args = args := by
  have hentries : (cleanArgs lib args).entries = args.entries := by
    refine List.filter_eq_self.2 fun e he => ?_
    rw [h e he]
    rfl
  cases hclean : cleanArgs lib args with
  | mk entries distinct =>
    rw [hclean] at hentries
    cases hentries
    rfl

theorem mem_liveTokens {conversationId c : Text} {now : Int} {tokens : Tokens} {t : ApprovalToken}
    (h : t ∈ liveTokens conversationId now tokens c) : t ∈ tokens c := by
  unfold liveTokens at h
  by_cases hc : c = conversationId
  · subst hc
    rw [Function.update_self] at h
    exact (List.mem_filter.1 h).1
  · rwa [Function.update_of_ne hc] at h

/-- Resolving leaves no token that was not there. -/
theorem mem_resolve {conversationId owner tool userRequest c : Text} {args : Args} {now : Nat → Int} {tokens : Tokens}
    {t : ApprovalToken}
    (h : t ∈ (resolveStandingApproval lib conversationId owner tool args userRequest now tokens).2 c) : t ∈ tokens c := by
  unfold resolveStandingApproval at h
  simp only [] at h
  split at h
  next => exact mem_liveTokens h
  next =>
    split at h
    next => exact mem_liveTokens h
    next =>
      split at h
      next => exact mem_liveTokens h
      next =>
        simp only [] at h
        by_cases hc : c = conversationId
        · subst hc
          rw [Function.update_self] at h
          exact mem_liveTokens (List.mem_filter.1 (List.mem_filter.1 h).1).1
        · rw [Function.update_of_ne hc] at h
          exact mem_liveTokens h
      next => exact mem_liveTokens h

/-- What releases an operation, and what is left then. -/
theorem resolve_allowed {conversationId owner tool userRequest : Text} {args : Args} {now : Nat → Int} {tokens : Tokens}
    (h : (resolveStandingApproval lib conversationId owner tool args userRequest now tokens).1 = .allowed) :
    ∃ c ∈ live (now 0) (tokens conversationId), isStanding c = true ∧ restates (approvedExactText lib userRequest) c = true ∧
      isExact lib owner tool args c = true ∧
      ∀ t ∈ (resolveStandingApproval lib conversationId owner tool args userRequest now tokens).2 conversationId,
        (isStanding t && restates (approvedExactText lib userRequest) t && isExact lib owner tool args t) = false := by
  obtain ⟨c, hc⟩ := resolve_allowed_iff.1 h
  have hmem : c ∈ exactCandidates lib owner tool args userRequest (now 0) (tokens conversationId) := by
    rw [hc]
    exact List.mem_singleton_self c
  obtain ⟨hmem, hexact⟩ := List.mem_filter.1 hmem
  obtain ⟨hmem, hrestates⟩ := List.mem_filter.1 hmem
  obtain ⟨hmem, hstanding⟩ := List.mem_filter.1 hmem
  refine ⟨c, hmem, hstanding, hrestates, hexact, fun t ht => ?_⟩
  unfold resolveStandingApproval at h ht
  simp only [] at h ht
  split at h
  next => cases h
  next hsome =>
    rw [if_neg hsome] at ht
    split at h
    next => cases h
    next hcandidates =>
      rw [if_neg hcandidates] at ht
      split at h
      next => cases h
      next hone =>
        rw [hone] at ht
        simp only [Function.update_self] at ht
        rw [← Bool.not_eq_true']
        exact (List.mem_filter.1 ht).2
      next => cases h

/-- Once a hold was used, no token of its place is left. -/
theorem no_token_left {l : Ledger} {conversationId owner tool userRequest : Text} {args : Args} {now : Nat → Int}
    {tokens : Tokens} (hbacked : ∀ t ∈ tokens conversationId, Backed l conversationId t)
    (h : (resolveStandingApproval lib conversationId owner tool args userRequest now tokens).1 = .allowed)
    {t : ApprovalToken} {kept : Args}
    (ht : t ∈ (resolveStandingApproval lib conversationId owner tool args userRequest now tokens).2 conversationId)
    (howner : t.owner = some owner) (htool : t.tool = tool) (hargs : t.args = some kept) : owner = [] := by
  by_contra hne
  obtain ⟨c, hc, hstanding, hrestates, hexact, hleft⟩ := resolve_allowed h
  simp only [isExact, Bool.and_eq_true, decide_eq_true_eq] at hexact
  obtain ⟨⟨hcowner, hctool⟩, hmatch⟩ := hexact
  obtain ⟨expected, hexpected⟩ := Option.isSome_iff_exists.1 (Bool.and_eq_true_iff.1 hstanding).2
  -- Both tokens are of the hold that stands at the place, so they have its arguments.
  obtain ⟨hold, hplace, hheld, -⟩ := hbacked t (mem_resolve ht) owner kept howner hargs hne
  obtain ⟨hold', hplace', hheld', -⟩ := hbacked c (List.mem_filter.1 hc).1 owner expected hcowner hexpected hne
  rw [htool] at hplace
  rw [hctool, hplace] at hplace'
  cases hplace'
  have hsame : t.args = c.args := by rw [hargs, hexpected, ← hheld, hheld']
  have hchosen := hleft t ht
  have hstanding' : isStanding t = true := by
    rw [isStanding, howner, hargs]
    show (decide (owner ≠ []) && true) = true
    rw [decide_eq_true hne]
    rfl
  have hrestates' : restates (approvedExactText lib userRequest) t = true := by
    rw [restates, hsame]
    exact hrestates
  have hexact' : isExact lib owner tool args t = true := by
    rw [isExact, hsame, howner, htool, decide_eq_true rfl, decide_eq_true rfl]
    exact hmatch
  rw [hstanding', hrestates', hexact'] at hchosen
  cases hchosen

/-- A consultation that holds nothing leaves no token that was not there. -/
theorem mem_guard {tool userRequest c : Text} {context : PeerMutationGuardContext} {now : Nat → Int} {tokens : Tokens}
    (hfree : (peerMutationGuardFailure lib tool userRequest context now tokens).1 ≠ some .approvalRequired)
    {t : ApprovalToken} (h : t ∈ (peerMutationGuardFailure lib tool userRequest context now tokens).2 c) : t ∈ tokens c := by
  unfold peerMutationGuardFailure at h hfree
  split at h
  next => exact h
  next hconnected =>
    rw [if_neg hconnected] at hfree
    simp only [] at h hfree
    split at h
    next conversationId hconversation =>
      have hleft : t ∈ (resolveStandingApproval lib conversationId context.ownerId (context.proposed tool).toolId
          (context.proposed tool).input userRequest now tokens).2 c := by
        split at h
        next heq => rw [heq]; exact h
        next heq => rw [heq]; exact h
        next heq => rw [heq]; exact h
        next heq => rw [heq]; exact h
      exact mem_resolve hleft
    next hnone =>
      rw [hnone] at hfree
      simp only [] at hfree
      split at h
      next => exact h
      next => exact h
      next hdisposition =>
        rw [hdisposition] at hfree
        simp only [] at hfree
        split at h
        next => exact h
        next conversationId hconversation =>
          rw [hconversation] at hfree
          simp only [] at hfree
          unfold registerStandingApproval at h hfree
          split at h
          next => exact h
          next hgiven =>
            rw [if_neg hgiven] at hfree
            exact absurd rfl hfree

/-- A hold leaves tokens of standing holds: its own takes the place of another one. -/
theorem backed_hold {l : Ledger} {conversationId owner tool : Text} {args : Args} {description : Text} {now : Nat → Int}
    {tokens : Tokens} (hbacked : ∀ c, ∀ t ∈ tokens c, Backed l c t) (hinternal : NoInternalKeys lib args) {c : Text}
    {t : ApprovalToken} (ht : t ∈ Function.update tokens conversationId
      (((live (now 1) (tokens conversationId)).filter fun t => t.owner ≠ some owner || t.tool ≠ tool) ++
        [standingToken lib owner tool args description (now 0)]) c) :
    Backed (l.hold (conversationId, owner, tool) args (now 0 + tokenTtlMs)).next c t := by
  have helsewhere : ∀ {place : Place}, place ≠ (conversationId, owner, tool) →
      (l.hold (conversationId, owner, tool) args (now 0 + tokenTtlMs)).next.standing place = l.standing place :=
    fun hne => Function.update_of_ne hne _ _
  by_cases hc : c = conversationId
  · subst hc
    rw [Function.update_self] at ht
    rcases List.mem_append.1 ht with ht | ht
    · obtain ⟨ht, hother⟩ := List.mem_filter.1 ht
      refine (hbacked c t (List.mem_filter.1 ht).1).of_standing fun o ho => helsewhere fun heq => ?_
      obtain ⟨-, rfl, htool⟩ : True ∧ o = owner ∧ t.tool = tool := ⟨trivial, by cases heq; rfl, by cases heq; rfl⟩
      rw [ho, htool] at hother
      simp at hother
    · obtain rfl := List.mem_singleton.1 ht
      intro o a ho ha _
      obtain rfl : owner = o := Option.some.inj ho
      obtain rfl : cleanArgs lib args = a := Option.some.inj ha
      refine ⟨⟨l.step, args, now 0 + tokenTtlMs⟩, Function.update_self .., (cleanArgs_eq hinternal).symm, rfl⟩
  · rw [Function.update_of_ne hc] at ht
    exact (hbacked c t ht).of_standing fun o ho => helsewhere fun heq => hc (by cases heq; rfl)

/-- **One step keeps the tokens backed.** -/
theorem AllBacked.after {w : World} (h : AllBacked w) {op : ApprovalOp} (hcareful : Careful lib w op) :
    AllBacked (op.after lib w) := by
  have hcancelled : ∀ {conversationId c : Text} {list : List ApprovalToken} {t : ApprovalToken},
      (∀ t ∈ list, t.owner = none) → t ∈ Function.update w.tokens conversationId list c →
      Backed (w.ledger.cancel conversationId).next c t := by
    intro conversationId c list t hnone ht
    by_cases hc : c = conversationId
    · subst hc
      rw [Function.update_self] at ht
      intro owner args howner
      rw [hnone t ht] at howner
      cases howner
    · rw [Function.update_of_ne hc] at ht
      exact (h c t ht).of_standing fun owner _ => if_neg hc
  intro c t ht
  cases op with
  | guard tool userRequest context now =>
    have ht : t ∈ (peerMutationGuardFailure lib tool userRequest context now w.tokens).2 c := ht
    show Backed (ApprovalOp.ledger lib (.guard tool userRequest context now) w).next c t
    by_cases hheld : (peerMutationGuardFailure lib tool userRequest context now w.tokens).1 = some .approvalRequired
    · have hpair : peerMutationGuardFailure lib tool userRequest context now w.tokens = (some .approvalRequired,
          (peerMutationGuardFailure lib tool userRequest context now w.tokens).2) := Prod.ext hheld rfl
      obtain ⟨conversationId, hconversation, hconnected, hquiet, hdisposition, -, htokens⟩ := guard_held hpair
      rw [htokens] at ht
      unfold ApprovalOp.ledger
      simp only []
      rw [hheld, hconversation]
      exact backed_hold h (hcareful hconnected hdisposition hquiet) ht
    · have hold := h c t (mem_guard hheld ht)
      unfold ApprovalOp.ledger
      simp only []
      split
      next hheld' _ => exact absurd hheld' hheld
      next conversationId hnone hconversation =>
        split
        next happroving =>
          obtain ⟨hconnected, haffirmative⟩ := Bool.and_eq_true_iff.1 happroving
          obtain ⟨htokens, hallowed⟩ :=
            @guard_approving lib context tool userRequest now w.tokens _ hconnected hconversation haffirmative
          -- The hold of this place is used up, and no token of it is left.
          intro owner args howner hargs hne
          by_cases hplace : (c, owner, t.tool) = context.place tool conversationId
          · obtain ⟨rfl, rfl, htool⟩ : c = conversationId ∧ owner = context.ownerId ∧ t.tool = (context.proposed tool).toolId :=
              ⟨congrArg (·.1) hplace, congrArg (·.2.1) hplace, congrArg (·.2.2) hplace⟩
            rw [htokens] at ht
            exact absurd (no_token_left (h c) (hallowed.1 hnone) ht howner htool hargs) hne
          · obtain ⟨hold, hstanding, hrest⟩ := hold owner args howner hargs hne
            exact ⟨hold, (Function.update_of_ne hplace _ _).trans hstanding, hrest⟩
        next => exact hold
      next => exact hold
  | registerStandingApproval conversationId owner tool args result description now =>
    have ht : t ∈ (registerStandingApproval lib conversationId owner tool args result description now w.tokens).2 c := ht
    show Backed (ApprovalOp.ledger lib
      (.registerStandingApproval conversationId owner tool args result description now) w).next c t
    unfold ApprovalOp.ledger
    simp only []
    unfold registerStandingApproval at ht ⊢
    split at ht
    next hrefused =>
      rw [if_pos hrefused]
      exact h c t ht
    next hgiven =>
      rw [if_neg hgiven]
      rw [Bool.or_eq_true, Bool.not_eq_true', Bool.not_eq_true', not_or, Bool.not_eq_false] at hgiven
      exact backed_hold h (hcareful hgiven.1) ht
  | registerApprovalToken conversationId tool content now =>
    exact hcancelled (fun t ht => by rw [List.mem_singleton.1 ht]) ht
  | registerOutboundComposeApprovalToken conversationId now =>
    exact hcancelled (fun t ht => by rw [List.mem_singleton.1 ht]) ht
  | cancelStandingApprovals conversationId => exact hcancelled (fun t ht => by cases ht) ht
  | liveTokens conversationId now => exact h c t (mem_liveTokens ht)
  | hydrateApprovalTokens conversationId saved now =>
    have ht : t ∈ Function.update w.tokens conversationId _ c := ht
    by_cases hc : c = conversationId
    · subst hc
      rw [Function.update_self] at ht
      obtain ⟨e, he, rfl⟩ := List.mem_map.1 ht
      have hmem : e.1 ∈ saved := (List.mem_zipIdx' (List.mem_filter.1 he).1).2 ▸ List.getElem_mem _
      exact hcareful e.1 hmem
    · rw [Function.update_of_ne hc] at ht
      exact h c t ht
  | restart => cases ht

/-! ## Safety -/

/-- **One consultation**: with the tokens backed, it approves nothing else than what is held. -/
theorem AllBacked.approved {w : World} (h : AllBacked w) (op : ApprovalOp) : Approved lib w op := by
  cases op with
  | guard tool userRequest context now =>
    intro hconnected hrisk hallowed
    have happroving : isAffirmativeApproval lib userRequest = true ∧
        ∃ conversationId, context.conversation = some conversationId := by
      unfold peerMutationGuardFailure at hallowed
      rw [if_neg (by rw [hconnected]; exact Bool.noConfusion)] at hallowed
      simp only [] at hallowed
      split at hallowed
      next conversationId hsome =>
        split at hsome
        next haffirmative => exact ⟨haffirmative, conversationId, hsome⟩
        next => cases hsome
      next =>
        split at hallowed
        next hexecute => exact absurd hexecute hrisk
        next => cases hallowed
        next => split at hallowed <;> cases hallowed
    obtain ⟨haffirmative, conversationId, hconversation⟩ := happroving
    obtain ⟨c, hc, hstanding, -, hexact, -⟩ :=
      resolve_allowed ((guard_approving hconnected hconversation haffirmative).2.1 hallowed)
    simp only [isExact, Bool.and_eq_true, decide_eq_true_eq] at hexact
    obtain ⟨⟨howner, htool⟩, hmatch⟩ := hexact
    obtain ⟨howned, hargs⟩ := Bool.and_eq_true_iff.1 hstanding
    obtain ⟨expected, hexpected⟩ := Option.isSome_iff_exists.1 hargs
    have hne : context.ownerId ≠ [] := by
      rw [howner] at howned
      exact of_decide_eq_true howned
    obtain ⟨hc, hlive⟩ := List.mem_filter.1 hc
    obtain ⟨hold, hplace, rfl, hexpires⟩ := h conversationId c hc context.ownerId expected howner hexpected hne
    rw [htool] at hplace
    refine ⟨haffirmative, conversationId, hold, hconversation, hplace, ?_, ?_⟩
    · rw [hexpires]
      exact of_decide_eq_true hlive
    · rw [hexpected] at hmatch
      exact hmatch
  | _ => trivial

/-- **Exact approvals are safe**: in every run whose steps hold no argument named like an internal approval field and
put back only holds that stand, what runs at elevated risk was held with the same arguments, and no hold serves twice. -/
theorem guard_safe {ops : List ApprovalOp}
    (hcareful : ∀ done op rest, ops = done ++ op :: rest → Careful lib (run lib done) op) :
    (∀ done op rest, ops = done ++ op :: rest → Approved lib (run lib done) op) ∧ (run lib ops).ledger.used.Nodup := by
  have hrun : ∀ done rest, ops = done ++ rest → AllBacked (run lib done) ∧ LedgerOk (run lib done).ledger := by
    intro done
    induction done using List.reverseRecOn with
    | nil =>
      intro _ _
      refine ⟨fun c t ht => (by cases ht), ⟨fun _ _ h => (by cases h), fun _ _ _ _ h => (by cases h), fun n hn => (by cases hn),
        List.nodup_nil⟩⟩
    | append_singleton done op ih =>
      intro rest hops
      rw [List.append_assoc] at hops
      obtain ⟨hbacked, hledger⟩ := ih _ hops
      have hafter : run lib (done ++ [op]) = op.after lib (run lib done) := by
        rw [run, List.foldl_append]
        rfl
      rw [hafter]
      exact ⟨hbacked.after (hcareful done op rest hops), hledger.after op⟩
  refine ⟨fun done op rest hops => (hrun done (op :: rest) hops).1.approved op, ?_⟩
  exact (hrun ops [] (List.append_nil ops).symm).2.used_nodup

/-! ### Three runs -/

def proposal (args : Args) (userRequest : String) (clock : Int) : ApprovalOp :=
  .guard "post".toList userRequest.toList (posting args) fun _ => clock

/-- An operation is held, and runs once the user says yes. -/
def approvedRun : List ApprovalOp := [proposal (post none) "draft this" 0, proposal (post none) "yes" 1000]

theorem approvedRun_safe : (run modelLibrary approvedRun).ledger.used = [0] ∧
    (∀ done op rest, approvedRun = done ++ op :: rest → Approved modelLibrary (run modelLibrary done) op) ∧
    (run modelLibrary approvedRun).ledger.used.Nodup := by
  have hplain : NoInternalKeys modelLibrary (post none) := by
    intro e he
    obtain rfl : e = ("text".toList, .str "hello".toList) := List.mem_singleton.1 he
    decide +kernel
  have hcareful : ∀ op ∈ approvedRun, ∀ w, Careful modelLibrary w op := by
    intro op hop w
    rcases List.mem_cons.1 hop with rfl | hop
    · exact fun _ _ _ => hplain
    · obtain rfl := List.mem_singleton.1 hop
      exact fun _ _ _ => hplain
  refine ⟨by decide +kernel, guard_safe fun done op rest hops => hcareful op ?_ _⟩
  rw [hops]
  exact List.mem_append_right done List.mem_cons_self

/-- **Two ways to run what was not held**: without the token that the held arguments have, and once more, when the
tokens are put back as they were saved before the operation ran. -/
theorem unheld_operations_run :
    ¬Approved modelLibrary (run modelLibrary [proposal (post (some "t".toList)) "draft this" 0])
      (proposal (post none) "yes" 1000) ∧
    ¬Approved modelLibrary (run modelLibrary (approvedRun ++ [.hydrateApprovalTokens "chat".toList
        (approvalTokenSnapshot "chat".toList 500 (run modelLibrary [proposal (post none) "draft this" 0]).tokens) fun _ => 2000]))
      (proposal (post none) "yes" 3000) := by
  constructor
  · intro h
    obtain ⟨-, conversationId, hold, hconversation, hstanding, -, hmatch⟩ := h rfl (by decide) (by decide +kernel)
    obtain rfl : "chat".toList = conversationId := Option.some.inj hconversation
    have hother : ((run modelLibrary [proposal (post (some "t".toList)) "draft this" 0]).ledger.standing
        ((posting (post none)).place "post".toList "chat".toList)).map
          (fun hold => exactArgsMatch modelLibrary hold.args (post none)) = some false := by decide +kernel
    rw [hstanding, Option.map_some] at hother
    exact Bool.false_ne_true ((Option.some.inj hother).symm.trans hmatch)
  · intro h
    obtain ⟨-, conversationId, hold, hconversation, hstanding, -, -⟩ := h rfl (by decide) (by decide +kernel)
    obtain rfl : "chat".toList = conversationId := Option.some.inj hconversation
    have hnone : ((run modelLibrary (approvedRun ++ [.hydrateApprovalTokens "chat".toList
        (approvalTokenSnapshot "chat".toList 500 (run modelLibrary [proposal (post none) "draft this" 0]).tokens)
          fun _ => 2000])).ledger.standing ((posting (post none)).place "post".toList "chat".toList)).isNone = true := by
      decide +kernel
    rw [hstanding] at hnone
    cases hnone

end Zenod.Approval
