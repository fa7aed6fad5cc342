/-
Standing approvals: what a guarded operation leaves behind when it is held, by
conversation. A hold keeps a copy of the arguments without the keys of internal
approval fields; an approval compares the full arguments of the operation that
is proposed against it.
-/
import Zenod.Lib.Json
import Zenod.Lib.Regex

namespace Zenod.Approval

open Text

/-- An argument object: its keys are distinct. -/
structure Args where
  entries : List (Text × Json)
  distinct : (Json.obj entries).Distinct

structure ApprovalToken where
  tool : Text
  draftHash : Text
  expiresAt : Int
  owner : Option Text := none
  description : Option Text := none
  args : Option Args := none
  anyOutboundSend : Bool := false

inductive ApprovalIntent
  | approve | cancel | edit | none
deriving DecidableEq

structure Library where
  unicode : Unicode
  /-- What `localeCompare` compares by. -/
  collation : Collation
  sha256 : Text → Text

/-- `TOKEN_TTL_MS`. -/
def tokenTtlMs : Int := 15 * 60 * 1000

/-- The tokens of each conversation. -/
abbrev Tokens := Text → List ApprovalToken

variable (lib : Library)

/-! ## Language -/

section
open Regex

def negationRegex : Regex :=
  wholeWord (["no", "not"].map word ++ [sequence [word "don", opt (word "'"), word "t"],
    sequence [word "won", opt (word "'"), word "t"]] ++
    ["never", "cancel", "stop", "abort", "nvm", "nevermind", "hold on", "wait"].map word)

def editRegex : Regex :=
  wholeWord (["change", "edit", "revise", "rewrite", "replace", "instead", "make it"].map word ++
    [sequence [word "update the ", Regex.words ["draft", "text", "message", "post"]]])

def approvalRegex : Regex :=
  sequence [alt start boundary,
    oneOf [sequence [opt (word "a"), word "pprove", opt (word "d")], sequence [word "confirm", opt (word "ed")],
      sequence [word "go", spaces, word "ahead"], sequence [word "do", some1 space, word "it"],
      sequence [Regex.words ["send", "post", "publish", "ship"], some1 space, Regex.words ["it", "now"]],
      word "yes", word "yep", word "yeah", sequence [word "ok", opt (word "ay")],
      sequence [word "sound", opt (word "s"), some1 space, word "good"],
      sequence [word "look", opt (word "s"), some1 space, word "good"]],
    alt boundary (sequence [spaces, word ":"])]

def approvalRequiredRegex : Regex :=
  oneOf [sequence [word "[", Regex.words ["draft_not_approved", "approval_required", "confirmation_required"], word "]"],
    sequence [boundary, Regex.words ["approval", "confirmation"], some1 space, opt (sequence [word "is", some1 space]),
      word "required", boundary],
    sequence [boundary, word "not", lit ['_', ' ', '-'], word "approved", boundary]]

def internalApprovalKeyRegex : Regex :=
  Regex.words ["approval", "approve", "confirmation", "confirm", "token", "secret", "password"]

def quoteMarks : Regex := lit [Char.ofNat 0x22, Char.ofNat 0x201c]

def closingMarks : Regex := lit [Char.ofNat 0x22, Char.ofNat 0x201d]

/-- `/^a?pprove(?:d)?\s*:\s*["“]([\s\S]*?)["”]\s*[.!]?\s*$/`. -/
def exactTextRegex : Regex :=
  sequence [start, opt (word "a"), word "pprove", opt (word "d"), spaces, word ":", spaces, quoteMarks,
    group 1 (star false (one fun _ => true)), closingMarks, spaces, opt (lit ['.', '!']), spaces, stop]

/-- Language is recognized here; it never grants authority. -/
def classifyApprovalIntent (userRequest : Text) : ApprovalIntent :=
  let text := trim userRequest
  let flags := ignoreCase lib.unicode
  if text = [] then .none
  else if test flags negationRegex text then .cancel
  else if test flags editRegex text then .edit
  else if test flags approvalRegex text then .approve
  else .none

/-- The text that `APPROVE: "..."` restates. -/
def approvedExactText (userRequest : Text) : Option Text :=
  (exec (ignoreCase lib.unicode) exactTextRegex (trim userRequest)).bind (·.group 1)

def isApprovalRequiredResult (result : Text) : Bool := test (ignoreCase lib.unicode) approvalRequiredRegex result

/-- `INTERNAL_APPROVAL_KEY_RE.test(key)`. -/
def isInternalKey (key : Text) : Bool := test (ignoreCase lib.unicode) internalApprovalKeyRegex key

end

/-! ## Arguments -/

mutual

/-- A draft as text: strings as they are, and objects without internal keys. -/
def canonicalDraft : Json → Text
  | .str t => t
  | .arr items => '[' :: [','].intercalate (draftItems items) ++ [']']
  | .obj entries =>
    '\x7b' :: [','].intercalate ((((draftEntries entries).filter fun e => !isInternalKey lib e.1).insertionSort
      fun e d => lib.collation.le e.1 d.1 = true).map fun e => Js.quote (String.ofList e.1) ++ ':' :: e.2) ++ ['\x7d']
  | v => v.print

def draftItems : List Json → List Text
  | [] => []
  | v :: rest => canonicalDraft v :: draftItems rest

def draftEntries : List (Text × Json) → List (Text × Text)
  | [] => []
  | (key, v) :: rest => (key, canonicalDraft v) :: draftEntries rest

end

def draftHash (content : Json) : Text := (lib.sha256 (canonicalDraft lib content)).take 32

/-- The arguments without internal keys. -/
def cleanArgs (args : Args) : Args where
  entries := args.entries.filter fun e => !isInternalKey lib e.1
  distinct := ⟨(List.filter_sublist.map _).nodup args.distinct.1,
    Json.distinctEntries_iff.2 fun e he => Json.distinctEntries_iff.1 args.distinct.2 e (List.mem_filter.1 he).1⟩

def isNull : Json → Bool
  | .null => true
  | _ => false

def hasSubstantiveArgs (args : Args) : Bool :=
  args.entries.any fun e => !isInternalKey lib e.1 && !isNull e.2 && 2 < utf16Length (canonicalDraft lib e.2)

/-- The value as text, each object's entries in the order of their keys. -/
def canonicalExactArgs (v : Json) : Text := (v.sortKeys lib.collation).print

def exactArgsMatch (expected actual : Args) : Bool :=
  canonicalExactArgs lib (.obj expected.entries) == canonicalExactArgs lib (.obj actual.entries)

/-! ## Tokens -/

def live (now : Int) (tokens : List ApprovalToken) : List ApprovalToken := tokens.filter (now < ·.expiresAt)

/-- `liveTokens`: what is expired is dropped from the map. -/
def liveTokens (conversationId : Text) (now : Int) (tokens : Tokens) : Tokens :=
  Function.update tokens conversationId (live now (tokens conversationId))

/-- The token of a hold. -/
def standingToken (owner tool : Text) (args : Args) (description : Text) (now : Int) : ApprovalToken :=
  let clean := cleanArgs lib args
  { tool := tool, draftHash := draftHash lib (.obj clean.entries), expiresAt := now + tokenTtlMs
    owner := some owner, description := some description, args := some clean }

/-- Hold the exact arguments that were refused; another hold of the tool is replaced. -/
def registerStandingApproval (conversationId owner tool : Text) (args : Args) (result description : Text)
    (now : Nat → Int) (tokens : Tokens) : Bool × Tokens :=
  if !isApprovalRequiredResult lib result || !hasSubstantiveArgs lib args then (false, tokens)
  else
    let token := standingToken lib owner tool args description (now 0)
    let others := (live (now 1) (tokens conversationId)).filter fun t => t.owner ≠ some owner || t.tool ≠ tool
    (true, Function.update tokens conversationId (others ++ [token]))

/-- A token of the older kind, for a draft. -/
def registerApprovalToken (conversationId tool : Text) (content : Json) (now : Int) (tokens : Tokens) : Tokens :=
  Function.update tokens conversationId
    [{ tool := tool, draftHash := draftHash lib content, expiresAt := now + tokenTtlMs }]

def registerOutboundComposeApprovalToken (conversationId : Text) (now : Int) (tokens : Tokens) : Tokens :=
  Function.update tokens conversationId
    [{ tool := [], draftHash := [], expiresAt := now + tokenTtlMs, anyOutboundSend := true }]

inductive StandingApprovalResolution
  | allowed | nothingPending | ambiguous | mismatch
deriving DecidableEq

/-- `token.owner && token.args`. -/
def isStanding (token : ApprovalToken) : Bool := (token.owner.any (· ≠ [])) && token.args.isSome

/-- An argument of the token is the text that is restated. -/
def restates (exactText : Option Text) (token : ApprovalToken) : Bool :=
  exactText.all fun text => token.args.any fun args => args.entries.any fun e =>
    match e.2 with
    | .str t => t = text
    | _ => false

def isExact (owner tool : Text) (args : Args) (token : ApprovalToken) : Bool :=
  token.owner = some owner && token.tool = tool && token.args.any fun expected => exactArgsMatch lib expected args

/-- Resolve a proposed operation against what is held. The one token that matches is consumed. -/
def resolveStandingApproval (conversationId owner tool : Text) (args : Args) (userRequest : Text) (now : Nat → Int)
    (tokens : Tokens) : StandingApprovalResolution × Tokens :=
  let first := liveTokens conversationId (now 0) tokens
  let standing := (first conversationId).filter isStanding
  let exactText := approvedExactText lib userRequest
  let candidates := standing.filter (restates exactText)
  let exactCandidates := candidates.filter (isExact lib owner tool args)
  if standing = [] then (.nothingPending, first)
  else if candidates = [] then (.mismatch, first)
  else
    match exactCandidates with
    | [] => (.mismatch, first)
    | [_] =>
      let chosen (t : ApprovalToken) : Bool := isStanding t && restates exactText t && isExact lib owner tool args t
      (.allowed, Function.update first conversationId ((live (now 1) (first conversationId)).filter fun t => !chosen t))
    | _ :: _ :: _ => (.ambiguous, first)

/-- `cancelStandingApprovals`, and `consumeApprovalToken`: nothing is left. -/
def cancelStandingApprovals (conversationId : Text) (tokens : Tokens) : Tokens :=
  Function.update tokens conversationId []

def approvalTokenSnapshot (conversationId : Text) (now : Int) (tokens : Tokens) : List ApprovalToken :=
  live now (tokens conversationId)

/-- Put back what was saved, each token where it is not expired by the clock's next reading. -/
def hydrateApprovalTokens (conversationId : Text) (saved : List ApprovalToken) (now : Nat → Int) (tokens : Tokens) :
    Tokens :=
  Function.update tokens conversationId ((saved.zipIdx.filter fun e => now e.2 < e.1.expiresAt).map (·.1))

end Zenod.Approval
