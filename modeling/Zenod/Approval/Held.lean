/-
Whether a held operation can be approved. The hold keeps the arguments without
their internal keys and the approval compares the full ones, so an operation
with such a key is held and never released; and the comparison, which sorts
keys by a collation, tells values apart where two keys of an object collate
equal (`held_approved_iff`).
-/
import Mathlib.Data.List.Lex
import Mathlib.Order.Lattice
import Zenod.Approval.Guard

namespace Zenod.Approval

open Text

variable {lib : Library} {context : PeerMutationGuardContext} {tool userRequest : Text} {now : Nat → Int}
  {tokens tokens' : Tokens} {conversationId owner : Text} {args : Args}

/-! ## What the guard can do -/

/-- An operation that is held: its token takes the place of another hold of the tool. -/
theorem guard_held (h : peerMutationGuardFailure lib tool userRequest context now tokens = (some .approvalRequired, tokens')) :
    ∃ conversationId, context.conversation = some conversationId ∧ context.connectedMcp = true ∧
      isAffirmativeApproval lib userRequest = false ∧ context.disposition = .holdForExactApproval ∧
      hasSubstantiveArgs lib (context.proposed tool).input = true ∧
      tokens' = Function.update tokens conversationId
        (((live (now 1) (tokens conversationId)).filter fun t =>
            t.owner ≠ some context.ownerId || t.tool ≠ (context.proposed tool).toolId) ++
          [standingToken lib context.ownerId (context.proposed tool).toolId (context.proposed tool).input [] (now 0)]) := by
  unfold peerMutationGuardFailure at h
  split at h
  next => cases (Prod.mk.inj h).1
  next hconnected =>
    simp only [] at h
    split at h
    next => split at h <;> cases (Prod.mk.inj h).1
    next hnone =>
      split at h
      next => cases (Prod.mk.inj h).1
      next => cases (Prod.mk.inj h).1
      next hdisposition =>
        split at h
        next => cases (Prod.mk.inj h).1
        next conversationId hconversation =>
          refine ⟨conversationId, hconversation, by rwa [Bool.not_eq_false] at hconnected, ?_, hdisposition, ?_⟩
          · by_contra haffirmative
            rw [Bool.not_eq_false] at haffirmative
            rw [if_pos haffirmative, hconversation] at hnone
            cases hnone
          · unfold registerStandingApproval at h
            split at h
            next => cases (Prod.mk.inj h).1
            next hgiven =>
              rw [Bool.or_eq_true, Bool.not_eq_true', Bool.not_eq_true', not_or, Bool.not_eq_false, Bool.not_eq_false] at hgiven
              exact ⟨hgiven.2, (Prod.mk.inj h).2.symm⟩

/-- With an approving text, the operation runs when what is held allows it. -/
theorem guard_approving (hconnected : context.connectedMcp = true) (hconversation : context.conversation = some conversationId)
    (haffirmative : isAffirmativeApproval lib userRequest = true) :
    (peerMutationGuardFailure lib tool userRequest context now tokens).2 =
        (resolveStandingApproval lib conversationId context.ownerId (context.proposed tool).toolId
          (context.proposed tool).input userRequest now tokens).2 ∧
      ((peerMutationGuardFailure lib tool userRequest context now tokens).1 = none ↔
        (resolveStandingApproval lib conversationId context.ownerId (context.proposed tool).toolId
          (context.proposed tool).input userRequest now tokens).1 = .allowed) := by
  unfold peerMutationGuardFailure
  rw [if_neg (by rw [hconnected]; exact Bool.noConfusion)]
  simp only []
  rw [if_pos haffirmative, hconversation]
  simp only []
  split
  next heq => rw [heq]; exact ⟨rfl, fun _ => rfl, fun _ => rfl⟩
  next heq => rw [heq]; exact ⟨rfl, fun h => (by cases h), fun h => (by cases h)⟩
  next heq => rw [heq]; exact ⟨rfl, fun h => (by cases h), fun h => (by cases h)⟩
  next heq => rw [heq]; exact ⟨rfl, fun h => (by cases h), fun h => (by cases h)⟩

/-- The tokens an approving text could release. -/
def exactCandidates (lib : Library) (owner tool : Text) (args : Args) (userRequest : Text) (now : Int)
    (held : List ApprovalToken) : List ApprovalToken :=
  (((live now held).filter isStanding).filter (restates (approvedExactText lib userRequest))).filter
    (isExact lib owner tool args)

theorem liveTokens_self (conversationId : Text) (now : Int) (tokens : Tokens) :
    liveTokens conversationId now tokens conversationId = live now (tokens conversationId) := Function.update_self ..

/-- What is held allows an operation when exactly one token matches it. -/
theorem resolve_allowed_iff :
    (resolveStandingApproval lib conversationId owner tool args userRequest now tokens).1 = .allowed ↔
      ∃ t, exactCandidates lib owner tool args userRequest (now 0) (tokens conversationId) = [t] := by
  unfold resolveStandingApproval exactCandidates
  simp only [liveTokens_self]
  split
  next hnone =>
    rw [hnone]
    exact ⟨fun h => (by cases h), fun ⟨t, h⟩ => by cases h⟩
  next =>
    split
    next hnone =>
      rw [hnone]
      exact ⟨fun h => (by cases h), fun ⟨t, h⟩ => by cases h⟩
    next =>
      split
      next hnil =>
        rw [hnil]
        exact ⟨fun h => (by cases h), fun ⟨t, h⟩ => by cases h⟩
      next t hone =>
        rw [hone]
        exact ⟨fun _ => ⟨t, rfl⟩, fun _ => rfl⟩
      next hmore =>
        rw [hmore]
        exact ⟨fun h => (by cases h), fun ⟨t, h⟩ => by cases h⟩

/-! ## Comparing arguments -/

theorem exactArgsMatch_iff {expected actual : Args} : exactArgsMatch lib expected actual = true ↔
    (Json.obj expected.entries).sortKeys lib.collation = (Json.obj actual.entries).sortKeys lib.collation := by
  rw [exactArgsMatch, beq_iff_eq]
  exact ⟨fun h => Json.print_injective h, fun h => congrArg Json.print h⟩

/-- No argument is named like an internal approval field. -/
def NoInternalKeys (lib : Library) (args : Args) : Prop := ∀ e ∈ args.entries, isInternalKey lib e.1 = false

/-- The copy a hold keeps matches the arguments when nothing was left out of it. -/
theorem cleanArgs_match_iff : exactArgsMatch lib (cleanArgs lib args) args = true ↔ NoInternalKeys lib args := by
  have hlength : ∀ l : List (Text × Json),
      (Json.sortByKey lib.collation (Json.sortEntries lib.collation l)).length = l.length := fun l => by
    rw [(Json.perm_sortByKey _).length_eq, Json.sortEntries_eq_map, List.length_map]
  have hkeep : NoInternalKeys lib args ↔ (cleanArgs lib args).entries = args.entries := by
    show _ ↔ args.entries.filter _ = args.entries
    rw [List.filter_eq_self]
    simp only [Bool.not_eq_true', NoInternalKeys]
  rw [exactArgsMatch_iff, hkeep]
  constructor
  · intro h
    have hsorted := congrArg List.length (Json.obj.inj h)
    rw [hlength, hlength] at hsorted
    exact List.filter_sublist.eq_of_length hsorted
  · intro h
    rw [h]

/-- **What the comparison accepts**: the same value up to the order of keys, exactly when no two keys of an object
in it collate equal. -/
theorem exactArgsMatch_same_iff : (∀ actual : Args, exactArgsMatch lib args actual = true ↔
    Json.Same (.obj args.entries) (.obj actual.entries)) ↔ (Json.obj args.entries).NoTies lib.collation := by
  rw [← Json.sortKeys_exact_iff args.distinct]
  constructor
  · intro h b hb
    constructor
    · exact Json.same_of_sortKeys_eq _ b
    · intro hsame
      cases b with
      | obj entries => exact exactArgsMatch_iff.1 ((h ⟨entries, hb⟩).2 hsame)
      | _ => cases hsame
  · intro h actual
    rw [exactArgsMatch_iff]
    exact h _ actual.distinct

/-! ## The next consultation -/

theorem exactCandidates_hold {others : List ApprovalToken} {token : ApprovalToken} {clock : Int}
    (hothers : ∀ t ∈ others, isExact lib owner tool args t = false) (hlive : clock < token.expiresAt)
    (htext : approvedExactText lib userRequest = none) :
    (∃ t, exactCandidates lib owner tool args userRequest clock (others ++ [token]) = [t]) ↔
      isStanding token = true ∧ isExact lib owner tool args token = true := by
  have hrestates : ∀ t : ApprovalToken, restates (approvedExactText lib userRequest) t = true := fun t => by
    rw [htext]
    rfl
  have hnone : exactCandidates lib owner tool args userRequest clock others = [] := by
    refine List.filter_eq_nil_iff.2 fun t ht => ?_
    have ht : t ∈ others := (List.mem_filter.1 (List.mem_filter.1 (List.mem_filter.1 ht).1).1).1
    rw [hothers t ht]
    exact Bool.false_ne_true
  have hsplit : exactCandidates lib owner tool args userRequest clock (others ++ [token]) =
      exactCandidates lib owner tool args userRequest clock [token] := by
    rw [← List.nil_append (exactCandidates lib owner tool args userRequest clock [token]), ← hnone]
    simp only [exactCandidates, live, List.filter_append]
  have hsingle : live clock [token] = [token] := by
    rw [live, List.filter_singleton, decide_eq_true hlive]
    rfl
  rw [hsplit, exactCandidates, hsingle, List.filter_singleton]
  cases hstanding : isStanding token with
  | false => exact ⟨fun ⟨t, h⟩ => (by cases h), fun h => (by cases h.1)⟩
  | true =>
    simp only [Bool.cond_true, List.filter_singleton, hrestates]
    cases hexact : isExact lib owner tool args token with
    | false => exact ⟨fun ⟨t, h⟩ => (by cases h), fun h => (by cases h.2)⟩
    | true => exact ⟨fun _ => ⟨trivial, rfl⟩, fun _ => ⟨token, rfl⟩⟩

/-- **A held operation can be approved exactly when** it has an owner and no argument that is named like an internal
approval field; and arguments are compared up to the order of keys exactly when no two keys collate equal. -/
theorem held_approved_iff {context' : PeerMutationGuardContext} {tool' userRequest' : Text} {now' : Nat → Int}
    {before : Tokens}
    (hheld : peerMutationGuardFailure lib tool userRequest context now tokens = (some .approvalRequired, tokens'))
    (hbefore : ∀ conversationId ∈ context.conversation, before conversationId = tokens' conversationId)
    (hconnected : context'.connectedMcp = true) (hconversation : context'.conversation = context.conversation)
    (howner : context'.ownerId = context.ownerId)
    (hoperation : context'.proposed tool' = context.proposed tool)
    (haffirmative : isAffirmativeApproval lib userRequest' = true) (htext : approvedExactText lib userRequest' = none)
    (hlive : now' 0 < now 0 + tokenTtlMs) :
    ((peerMutationGuardFailure lib tool' userRequest' context' now' before).1 = none ↔
      context.ownerId ≠ [] ∧ NoInternalKeys lib (context.proposed tool).input) ∧
    ∀ expected : Args, (∀ actual : Args, exactArgsMatch lib expected actual = true ↔
      Json.Same (.obj expected.entries) (.obj actual.entries)) ↔ (Json.obj expected.entries).NoTies lib.collation := by
  obtain ⟨conversationId, hsome, -, -, -, -, rfl⟩ := guard_held hheld
  refine ⟨?_, fun expected => exactArgsMatch_same_iff⟩
  rw [(guard_approving hconnected (hconversation.trans hsome) haffirmative).2, resolve_allowed_iff, hbefore _ hsome,
    Function.update_self, howner, hoperation]
  have hothers : ∀ t ∈ (live (now 1) (tokens conversationId)).filter fun t =>
      t.owner ≠ some context.ownerId || t.tool ≠ (context.proposed tool).toolId,
      isExact lib context.ownerId (context.proposed tool).toolId (context.proposed tool).input t = false := by
    intro t ht
    have hother := (List.mem_filter.1 ht).2
    rw [Bool.or_eq_true, decide_eq_true_eq, decide_eq_true_eq] at hother
    unfold isExact
    rcases hother with hother | hother
    · rw [decide_eq_false hother, Bool.false_and, Bool.false_and]
    · rw [decide_eq_false hother, Bool.and_false, Bool.false_and]
  rw [exactCandidates_hold hothers hlive htext]
  refine and_congr ?_ ?_
  · show ((decide (context.ownerId ≠ [])) && true) = true ↔ context.ownerId ≠ []
    rw [Bool.and_true, decide_eq_true_eq]
  · show (decide (some context.ownerId = some context.ownerId) &&
      decide ((context.proposed tool).toolId = (context.proposed tool).toolId) &&
      exactArgsMatch lib (cleanArgs lib (context.proposed tool).input) (context.proposed tool).input) = true ↔ _
    rw [decide_eq_true rfl, decide_eq_true rfl, Bool.true_and, Bool.true_and]
    exact cleanArgs_match_iff

/-! ## Two operations that are held -/

/-- What a character is ordered by: an accented letter as its letter and the accent. -/
def decompose (c : Char) : List Nat := if c = Char.ofNat 0xe9 then [0x65, 0x301] else [c.toNat]

/-- A collation under which a composed and a decomposed accent are equal. -/
def accentCollation : Collation where
  le a b := decide (a.flatMap decompose ≤ b.flatMap decompose)
  total a b := by
    rw [Bool.or_eq_true, decide_eq_true_eq, decide_eq_true_eq]
    exact le_total _ _
  trans a b c hab hbc := by
    rw [decide_eq_true_eq] at *
    exact le_trans hab hbc

def modelLibrary : Library where
  unicode := .ascii
  collation := accentCollation
  sha256 := id

def post (token : Option Text) : Args where
  entries := ("text".toList, .str "hello".toList) :: (token.map fun t => ("token".toList, Json.str t)).toList
  distinct := by
    cases token with
    | none => exact ⟨by decide, trivial, trivial⟩
    | some t => exact ⟨show ["text".toList, "token".toList].Nodup by decide, trivial, trivial, trivial⟩

/-- A public connection, for one operation. -/
def posting (args : Args) : PeerMutationGuardContext where
  conversationId := some "chat".toList
  args := some args
  connectedMcp := true
  owner := some "peer".toList
  annotations := some { readOnlyHint := some false, destructiveHint := some false, openWorldHint := some false }
  trustedProfile := some
    { exposure := .public, tenantScope := .tenant, financialScope := .none, trustMcpAnnotations := true }

def nothingHeld : Tokens := fun _ => []

/-- The guard's answer to an operation, and to the same operation once the user says yes. -/
def holdAndApprove (args : Args) : Option GuardFailure × Option GuardFailure :=
  let held := peerMutationGuardFailure modelLibrary "post".toList "draft this".toList (posting args) (fun _ => 0) nothingHeld
  (held.1, (peerMutationGuardFailure modelLibrary "post".toList "yes".toList (posting args) (fun _ => 1000) held.2).1)

theorem post_approved : (holdAndApprove (post none)).1 = some .approvalRequired ∧ (holdAndApprove (post none)).2 = none := by
  have hheld : (holdAndApprove (post none)).1 = some .approvalRequired := by decide +kernel
  refine ⟨hheld, (held_approved_iff (Prod.ext hheld rfl) (fun _ _ => rfl) rfl rfl rfl rfl (by decide +kernel)
    (by decide +kernel) (by decide)).1.2 ⟨by decide, ?_⟩⟩
  intro e he
  obtain rfl : e = ("text".toList, .str "hello".toList) := List.mem_singleton.1 he
  decide +kernel

/-- Two keys that differ in how their accent is written, in either order. -/
def accents (composedFirst : Bool) : Args where
  entries :=
    let composed := ([Char.ofNat 0xe9], Json.null)
    let decomposed := (['e', Char.ofNat 0x301], Json.bool true)
    if composedFirst then [composed, decomposed] else [decomposed, composed]
  distinct := by
    cases composedFirst with
    | true => exact ⟨show [[Char.ofNat 0xe9], ['e', Char.ofNat 0x301]].Nodup by decide, trivial, trivial, trivial⟩
    | false => exact ⟨show [['e', Char.ofNat 0x301], [Char.ofNat 0xe9]].Nodup by decide, trivial, trivial, trivial⟩

/-- **An operation with a token is held and cannot be approved**, and a reordering of keys is refused. -/
theorem token_never_approved : holdAndApprove (post (some "t".toList)) = (some .approvalRequired, some .mismatch) ∧
    Json.Same (.obj (accents true).entries) (.obj (accents false).entries) ∧
    exactArgsMatch modelLibrary (accents true) (accents false) = false := by
  refine ⟨by decide +kernel, ?_, by decide +kernel⟩
  exact .obj (Json.SameEntries.refl _) (List.Perm.swap _ _ _)

end Zenod.Approval
