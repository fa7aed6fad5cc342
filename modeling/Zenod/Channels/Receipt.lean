/-
The receipt that a finished capture is answered with (`terminalCaptureReceipt`
of `server/phylaxChannels.ts` and `server/phylaxCaptureReceipt.ts`): what is
read of the downstream's result, and the text that is made of it and of the
transcript handed over with the message.

What JavaScript takes from the Unicode character database is a parameter.
-/
import Zenod.Lib.JsonRead
import Zenod.Lib.Regex

namespace Zenod.Channels

open Text Regex

/-! ## Reading a result -/

structure PeerToolResult where
  isError : Bool := false
  structuredContent : Option Json := none

/-- `objectValue(value)`; undefined is none. -/
def objectValue (value : Option Json) : Option Json :=
  match value with
  | some (.obj entries) => some (.obj entries)
  | _ => none

/-- `object?.[key]`, with null as undefined. -/
def field (value : Option Json) (key : String) : Option Json :=
  match value.bind (Json.field? · key.toList) with
  | some .null => none
  | found => found

/-- A string that is not blank, trimmed. -/
def nonBlank (value : Option Json) : Option Text :=
  match value with
  | some (.str t) => if trim t = [] then none else some (trim t)
  | _ => none

def truthy : Option Json → Bool
  | none | some .null | some (.bool false) | some (.str []) => false
  | some (.num n) => n.text != "0".toList
  | _ => true

mutual

/-- `String(value)`. -/
def stringOf : Json → Text
  | .null => "null".toList
  | .bool b => if b then "true".toList else "false".toList
  | .num n => n.text
  | .str t => t
  | .arr items => stringOfItems items
  | .obj _ => "[object Object]".toList

/-- The items joined by commas, null as nothing. -/
def stringOfItems : List Json → Text
  | [] => []
  | [v] => stringOfItem v
  | v :: rest => stringOfItem v ++ ",".toList ++ stringOfItems rest

def stringOfItem : Json → Text
  | .null => []
  | v => stringOf v

end

def acceptedJobId (result : PeerToolResult) : Option Text :=
  let structured := objectValue result.structuredContent
  nonBlank ((field structured "ticket_id").or (field structured "jobId"))

def jobState (result : PeerToolResult) : Option Text :=
  let structured := objectValue result.structuredContent
  match (field structured "state").or (field structured "status") with
  | some (.str t) => some (t.map Char.toLower)
  | _ => none

def stringArray (value : Option Json) : List Text :=
  match value with
  | some (.arr items) => items.filterMap fun item =>
      match item with
      | .str t => if trim t = [] then none else some t
      | _ => none
  | _ => []

/-! ## Customer prose -/

def idName : Regex :=
  sequence [words ["correlation", "job", "ticket", "execution"], opt (lit " _-".toList), word "id"]

/-- `/^\s*(?:internal\s+)?(?:correlation|job|ticket|execution)[ _-]?id\s*[:#=]/i`. -/
def idLine : Regex :=
  sequence [start, spaces, opt (sequence [word "internal", some1 space]), idName, spaces, lit ":#=".toList]

def idValueChars : Text := "ABCDEFGHIJKLMNOPQRSTUVWXYZabcdefghijklmnopqrstuvwxyz0123456789-._:@/".toList

/-- An id in the prose, with the mark before it and its value, up to case. -/
def idMention : Regex :=
  sequence [spaces, opt (oneOf [lit ['('], lit "-–—;,".toList]), spaces, boundary,
    opt (sequence [word "internal", some1 space, word "test", some1 space]), idName, boundary, spaces,
    opt (lit ":#=".toList), spaces, some1 (lit idValueChars), opt (lit [')'])]

/-- `/\n{3,}/g`. -/
def blankLines : Regex := sequence [lit ['\n'], lit ['\n'], some1 (lit ['\n'])]

variable (unicode : Unicode)

def sanitizePhylaxCustomerReply (value : Text) : Text :=
  let kept := (lines value).filter fun line => (matchAt (ignoreCase unicode) idLine [] line).isNone
  let cleaned := kept.map fun line => trimEnd (replaceAll (ignoreCase unicode) idMention [] line)
  trim (replaceAll plain blankLines "\n\n".toList (join cleaned))

def captureReceiptInvitation : Text := "reply to this message to discuss or act on it".toList

def appendPhylaxCaptureReceiptInvitation (receipt : Text) : Text :=
  let trimmed := trim receipt
  if trimmed = [] then captureReceiptInvitation
  else if captureReceiptInvitation.isSuffixOf trimmed then trimmed
  else trimmed ++ "\n\n".toList ++ captureReceiptInvitation

def transcriptPreview (value : Text) : Text :=
  if utf16Length value ≤ 3500 then value
  else trimEnd (takeUnits 3500 value) ++ " […continues in the filed Zenod memory]".toList

/-! ## The receipt -/

inductive CaptureState | polling | done | error
deriving DecidableEq

/-- What a handoff gives to the receipt. -/
structure Handoff where
  sender : Text
  textTranscript : Option Text := none
deriving DecidableEq

structure CaptureReceipt where
  state : CaptureState
  text : Text
  evidenceRef : Option Text
deriving DecidableEq

def chatWithZenod : Text := "chat_with_zenod".toList

def couldNotConfirm : Text :=
  "⚠️ I could not confirm the result of that request. Please check your Zenod activity before trying it again.".toList

def couldNotSave : Text := "⚠️ Zenod could not finish saving that memory. Please try again.".toList

/-- A result that is not done, or has nothing in it. -/
def failedReceipt (tool : Text) : CaptureReceipt :=
  { state := .error, text := if tool = chatWithZenod then couldNotConfirm else couldNotSave, evidenceRef := none }

def chatReceipt (payload : Option Json) : CaptureReceipt :=
  let reply := sanitizePhylaxCustomerReply unicode
    (match field payload "text" with
      | some (.str t) => t
      | _ => [])
  { state := .done
    text := if reply = [] then "Zenod finished the request, but returned no reply text.".toList else reply
    evidenceRef := nonBlank (field (objectValue (field payload "stored")) "evidenceRef") }

/-- The reason that the allowance is used up, when that is the result. -/
def allowanceReceipt (payload : Option Json) : Option CaptureReceipt :=
  match field payload "code", nonBlank (field payload "message") with
  | some (.str code), some message =>
    if code = "ai_allowance_exhausted".toList then
      let original := match nonBlank (field (objectValue (field payload "rawArtifact")) "archiveUrl") with
        | some archive => ["Original: ".toList ++ archive]
        | none => []
      some { state := .done, text := sanitizePhylaxCustomerReply unicode (join (message :: original)), evidenceRef := none }
    else none
  | _, _ => none

/-- The line about the archived media. -/
def archiveLine (rawArtifact transcriptionStatus : Option Json) : List Text :=
  match nonBlank (field rawArtifact "archiveUrl") with
  | some url =>
    let label :=
      if includes url "drive.google.com".toList then
        if truthy transcriptionStatus then "Google Drive audio" else "Google Drive media"
      else if truthy transcriptionStatus then "Audio archive" else "Media archive"
    [label.toList ++ ": ".toList ++ url]
  | none => if rawArtifact.isSome then ["Media: archived".toList] else []

/-- The lines about the transcription, with the transcript of the handoff. -/
def transcriptionLines (extraction transcriptionStatus : Option Json) (transcript : Text) : List Text :=
  match transcriptionStatus with
  | some (.str status) =>
    if status = "skipped_duration_limit".toList then
      ["Transcription: skipped because the audio exceeds the 2-hour limit.".toList]
    else if status = "transcribed".toList then
      "Transcription: completed.".toList ::
        if transcript = [] then [] else ["Transcript: ".toList ++ transcriptPreview transcript]
    else if truthy (field extraction "provider") then ["Media extraction: completed.".toList] else []
  | _ => if truthy (field extraction "provider") then ["Media extraction: completed.".toList] else []

inductive Filing | filed | uncertain | inbox | pending
deriving DecidableEq

def filingOf (payload digest : Option Json) : Filing :=
  let value := (((field payload "filing").or (field digest "filing")).map stringOf).getD []
  if value = "filed".toList then .filed
  else if value = "uncertain".toList then .uncertain
  else if value = "inbox".toList then .inbox
  else if value = "pending".toList then .pending
  else
    match field payload "question" with
    | some (.str _) => .inbox
    | _ => .filed

def filingLines (filing : Filing) (pages : List Text) : List Text :=
  match filing with
  | .pending => ["Semantic filing: continuing safely in the background.".toList]
  | .uncertain =>
    ["Filing: saved to ".toList ++ pages.headD "the selected page".toList ++
      " with an open filing question logged in the page (review anytime).".toList]
  | .inbox => ["Filing: saved to Inbox; the filing question is logged in the note.".toList]
  | .filed => []

def savedReceipt (payload : Option Json) (handoff : Handoff) : CaptureReceipt :=
  let digest := objectValue (field payload "digest")
  let rawArtifact := objectValue (field payload "rawArtifact")
  let extraction := objectValue (field payload "extraction")
  let transcriptionStatus := field extraction "transcriptionStatus"
  let pages := stringArray ((field payload "pagesTouched").or (field digest "pagesTouched"))
  let filing := filingOf payload digest
  let recap := ((nonBlank (field payload "recap")).or (nonBlank (field payload "message"))).getD
    "Your memory has been filed.".toList
  let body :=
    [if filing = .pending then "Captured ✓".toList else "Saved ✓".toList, "Recap: ".toList ++ recap] ++
      archiveLine rawArtifact transcriptionStatus ++
      transcriptionLines extraction transcriptionStatus (trim (handoff.textTranscript.getD [])) ++
      (if pages = [] then [] else ["Filed: ".toList ++ ", ".toList.intercalate pages]) ++
      filingLines filing pages
  { state := .done
    evidenceRef := nonBlank ((field payload "evidenceRef").or (field digest "evidenceRef"))
    text := sanitizePhylaxCustomerReply unicode (appendPhylaxCaptureReceiptInvitation (join body)) }

def terminalCaptureReceipt (result : PeerToolResult) (expectedJobId tool : Text) (handoff : Handoff) :
    Option CaptureReceipt :=
  match jobState result with
  | none => none
  | some state =>
    let structured := objectValue result.structuredContent
    if state ≠ "done".toList ∧ state ≠ "error".toList ∧ state ≠ "interrupted".toList then none
    else
      match (field structured "ticket_id").or (field structured "jobId") with
      | some (.str responseJobId) =>
        if responseJobId ≠ expectedJobId then none
        else
          let payload := objectValue (field structured "result")
          if state ≠ "done".toList ∨ result.isError = true ∨ payload.isNone then some (failedReceipt tool)
          else if tool = chatWithZenod then some (chatReceipt unicode payload)
          else some ((allowanceReceipt unicode payload).getD (savedReceipt unicode payload handoff))
      | _ => none

end Zenod.Channels
