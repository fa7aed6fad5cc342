/-
`peerMutationGuardFailure`: what a connected operation needs before it runs. An
approving text resolves an operation that is held; any other operation runs
when its risk is known to be small, and is held when it is known to be elevated.
-/
import Zenod.Approval.Tokens

namespace Zenod.Approval

inductive ConnectionExposure
  | «private» | «public» | external | unknown
deriving DecidableEq

inductive ConnectionTenantScope
  | tenant | crossTenant | unknown
deriving DecidableEq

inductive ConnectionFinancialScope
  | none | financial | unknown
deriving DecidableEq

/-- The host's policy for one connection. -/
structure TrustedConnectionProfile where
  exposure : ConnectionExposure := .unknown
  tenantScope : ConnectionTenantScope := .unknown
  financialScope : ConnectionFinancialScope := .unknown
  trustMcpAnnotations : Bool := false
deriving DecidableEq

/-- The hints of a tool, where they are booleans. -/
structure McpRiskAnnotations where
  readOnlyHint : Option Bool := none
  destructiveHint : Option Bool := none
  openWorldHint : Option Bool := none
deriving DecidableEq

structure TurnPlanOperation where
  toolId : Text
  input : Args

inductive HostAuthorizationDisposition
  | execute | holdForExactApproval | clarify
deriving DecidableEq

/-- The host's decision, by the profile and the hints it permits alone. -/
def authorizeTurnPlanOperation (annotations : Option McpRiskAnnotations) (profile : Option TrustedConnectionProfile) :
    HostAuthorizationDisposition :=
  let profile := profile.getD {}
  let annotations := annotations.getD {}
  let annotationRiskKnown := profile.trustMcpAnnotations && annotations.readOnlyHint.isSome &&
    annotations.destructiveHint.isSome && annotations.openWorldHint.isSome
  let profileRiskKnown := profile.exposure ≠ .unknown && profile.tenantScope ≠ .unknown && profile.financialScope ≠ .unknown
  if !annotationRiskKnown || !profileRiskKnown then .clarify
  else if profile.exposure ≠ .private || profile.tenantScope ≠ .tenant || profile.financialScope = .financial ||
      annotations.destructiveHint = some true || annotations.openWorldHint = some true then .holdForExactApproval
  else .execute

structure PeerMutationGuardContext where
  operation : Option TurnPlanOperation := none
  conversationId : Option Text := none
  args : Option Args := none
  connectedMcp : Bool := false
  owner : Option Text := none
  annotations : Option McpRiskAnnotations := none
  trustedProfile : Option TrustedConnectionProfile := none

/-- Why a tool is not run. -/
inductive GuardFailure
  | ambiguous | mismatch | nothingPending | riskUnknown | notHeld | approvalRequired
deriving DecidableEq

def GuardFailure.text (tool : String) : GuardFailure → String
  | .ambiguous => "Blocked " ++ tool ++ ": more than one standing action matches; ask the user which exact draft to approve."
  | .mismatch =>
    "Blocked " ++ tool ++ ": the selected peer, operation, or exact arguments do not match the standing action."
  | .nothingPending => "__nothing_pending_to_approve__"
  | .riskUnknown => "Blocked " ++ tool ++ ": trusted connection risk metadata is incomplete or unknown."
  | .notHeld => "Blocked " ++ tool ++ ": the elevated-risk operation could not be held with exact arguments."
  | .approvalRequired => "__host_approval_required__"

def Args.empty : Args := ⟨[], ⟨List.nodup_nil, trivial⟩⟩

variable (lib : Library)

/-- An approving text: it is consulted to resolve what is held, and authorizes nothing else. -/
def isAffirmativeApproval (userRequest : Text) : Bool := classifyApprovalIntent lib userRequest = .approve

namespace PeerMutationGuardContext

variable (context : PeerMutationGuardContext)

/-- The operation that is proposed. -/
def proposed (tool : Text) : TurnPlanOperation :=
  context.operation.getD { toolId := tool, input := context.args.getD .empty }

def ownerId : Text := context.owner.getD []

/-- The conversation, where there is one. -/
def conversation : Option Text := context.conversationId.filter (· ≠ [])

def disposition : HostAuthorizationDisposition := authorizeTurnPlanOperation context.annotations context.trustedProfile

end PeerMutationGuardContext

def heldResult : Text := "[approval_required] Held by Ring's deterministic host risk policy.".toList

/-- The failure that stops a tool, none when it may run, and the tokens that are left. -/
def peerMutationGuardFailure (tool userRequest : Text) (context : PeerMutationGuardContext) (now : Nat → Int)
    (tokens : Tokens) : Option GuardFailure × Tokens :=
  if context.connectedMcp = false then (none, tokens)
  else
    let operation := context.proposed tool
    match if isAffirmativeApproval lib userRequest then context.conversation else none with
    | some conversationId =>
      match resolveStandingApproval lib conversationId context.ownerId operation.toolId operation.input userRequest now
          tokens with
      | (.allowed, tokens) => (none, tokens)
      | (.ambiguous, tokens) => (some .ambiguous, tokens)
      | (.mismatch, tokens) => (some .mismatch, tokens)
      | (.nothingPending, tokens) => (some .nothingPending, tokens)
    | none =>
      match context.disposition with
      | .execute => (none, tokens)
      | .clarify => (some .riskUnknown, tokens)
      | .holdForExactApproval =>
        match context.conversation with
        | none => (some .notHeld, tokens)
        | some conversationId =>
          let (held, tokens) := registerStandingApproval lib conversationId context.ownerId operation.toolId
            operation.input heldResult [] now tokens
          (some (if held then .approvalRequired else .notHeld), tokens)

end Zenod.Approval
