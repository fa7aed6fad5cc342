/-
The queue of Drive ingestions (`ingestQueue.ts`, `ingestStore.ts`): jobs in a
store, the calls that enqueue, retry and cancel them, and the loop that works
them off. The loop is cut where it waits for Drive, for a transcription or for
the engine, and calls come in between; what it does with an answer is one
segment.
-/
import Zenod.Lib.Interleave
import Zenod.Lib.Table
import Zenod.Lib.Text
import Mathlib.Data.List.Sort

namespace Zenod.Ingest

open Keyed Text

inductive IngestStatus | queued | downloading | extracting | transcribing | filing | done | error | interrupted
deriving DecidableEq

/-- A row of `ingest_jobs`; JSON columns of the engine are texts. -/
structure JobRow where
  id : Text
  driveFileId : Text
  fileName : Text
  hints : List Text
  status : IngestStatus := .queued
  progress : Nat := 0
  step : Option Text := none
  error : Option Text := none
  evidenceRef : Option Text := none
  pages : List Text := []
  revision : Option Text := none
  urls : List Text := []
  commitSha : Option Text := none
  githubUrls : List Text := []
  backlog : Option Text := none
  archived : Bool := false
  cachedBody : Option Text := none
  cachedProvider : Option Text := none
  cachedSourceLink : Option Text := none
  createdAt : Int
  updatedAt : Int
deriving DecidableEq

instance : Keyed JobRow where
  clash a b := a.id == b.id
  clash_symm _ _ := BEq.comm

/-- `IN_FLIGHT_STATES`. -/
def IngestStatus.isInFlight : IngestStatus → Bool
  | .downloading | .extracting | .transcribing | .filing => true
  | .queued | .done | .error | .interrupted => false

/-- `ACTIVE_STATES`. -/
def IngestStatus.isActive (s : IngestStatus) : Bool := s = .queued || s.isInFlight

structure DriveFile where
  id : Text
  name : Text
  mimeType : Text
  parents : Option (List Text) := none
  webViewLink : Option Text := none
deriving DecidableEq

inductive Filing | filed | uncertain | inbox | pending
deriving DecidableEq

/-- What the engine's `store` answers with; a backlog is its JSON and the number of its candidates. -/
structure StoreResult where
  evidenceRef : Text
  pagesTouched : List Text
  filing : Filing
  revision : Option Text := none
  urls : Option (List Text) := none
  commitSha : Option Text := none
  githubUrls : Option (List Text) := none
  backlog : Option (Text × Nat) := none
deriving DecidableEq

inductive BodyKind | voiceNote | document | mediaArtifact
deriving DecidableEq

def BodyKind.text : BodyKind → Text
  | .voiceNote => "Voice note".toList
  | .document => "Document".toList
  | .mediaArtifact => "Media artifact".toList

/-- What a job waits for. -/
inductive Stage
  | file
  | audio (file : DriveFile) (sourceLink : Text)
  | transcription (file : DriveFile) (sourceLink : Text)
  | artifact (file : DriveFile) (sourceLink : Text)
  | artifactEngine (file : DriveFile) (sourceLink : Text)
  | extraction (file : DriveFile) (sourceLink : Text)
  | document (file : DriveFile) (sourceLink : Text)
  | engine (file : DriveFile) (content : Text)
  | store (file : DriveFile)
  | folder (file : DriveFile) (stored : StoreResult)
  | move (file : DriveFile) (stored : StoreResult)
deriving DecidableEq

/-- A job on its way, with its abort controller and the folder of the settings. -/
structure Process where
  id : Text
  driveFileId : Text
  hints : List Text
  controller : Nat
  folderId : Option Text
  stage : Stage
deriving DecidableEq

/-- What the loop waits for: a job on its way, one that is through, or one whose client could not be made. -/
inductive Frame
  | process (p : Process)
  | processed
  | failed
deriving DecidableEq

inductive Event
  | status (id : Text) (status : IngestStatus)
  /-- `engine.store` was called. -/
  | store (id : Text)
deriving DecidableEq

structure IngestQueue where
  jobs : Table JobRow := .empty
  draining : Bool := false
  running : List (Text × Nat) := []
  controllers : Nat := 0
  aborted : List Nat := []
  /-- The statuses written and the stores begun. -/
  log : List Event := []

abbrev Segment := IngestQueue × Option Frame

/-- What `driveClientFromSettings` gives, and the folder of the settings. -/
inductive Client
  | none
  | failed
  | ready (folderId : Option Text)
deriving DecidableEq

/-- What a job may be answered with. -/
inductive Answer
  | file (file : DriveFile)
  | bytes
  | progress (percent : Int)
  | transcript (body : Text) (provider : Option Text)
  | engine
  | extraction (body : Text) (provider : Option Text)
  | text (body : Text)
  | stored (result : StoreResult)
  | folder
  | moved

/-- An answer or the message of a failure, the clock behind it, and the client if another job starts. -/
structure Reply where
  result : Except Text Answer
  now : Int
  client : Client := .ready none

namespace IngestQueue

variable (q : IngestQueue)

/-! ## The store -/

def get (id : Text) : Option JobRow := q.jobs.rows.find? (·.id = id)

/-- A patch of a job, of columns other than its status. -/
structure Patch where
  apply : JobRow → JobRow
  id : ∀ r, (apply r).id = r.id
  driveFileId : ∀ r, (apply r).driveFileId = r.driveFileId
  status : ∀ r, (apply r).status = r.status

/-- `update`, without a status. -/
def update (id : Text) (patch : Patch) (now : Int) : IngestQueue :=
  { q with
    jobs := q.jobs.update (·.id = id) (fun r => { patch.apply r with updatedAt := now })
      fun r r' => congrArg (· == r'.id) (patch.id r) }

/-- `update`, with a status. -/
def updateStatus (id : Text) (status : IngestStatus) (patch : Patch) (now : Int) : IngestQueue :=
  { q with
    jobs := q.jobs.update (·.id = id) (fun r => { patch.apply r with status := status, updatedAt := now })
      fun r r' => congrArg (· == r'.id) (patch.id r)
    log := q.log ++ [Event.status id status] }

/-- The queued job that was created first. -/
def nextQueued : Option JobRow :=
  ((q.jobs.rows.filter (·.status = .queued)).insertionSort fun a b => a.createdAt ≤ b.createdAt).head?

def activeForFile (driveFileId : Text) : Option JobRow :=
  ((q.jobs.rows.filter fun r => r.driveFileId = driveFileId && r.status.isActive).insertionSort
    fun a b => b.createdAt ≤ a.createdAt).head?

/-- `cachedPayload`. -/
def cachedPayload (id : Text) : Option (Text × Option Text × Option Text) :=
  (q.get id).bind fun r => (r.cachedBody.filter (· ≠ [])).map fun body => (body, r.cachedProvider, r.cachedSourceLink)

/-! ## The loop -/

/-- The start of `process`, up to the file. -/
def startJob (job : JobRow) (client : Client) (now : Int) : Segment :=
  match client with
  | .none => (q.updateStatus job.id .error ⟨fun r => { r with error := some "Google Drive is not connected".toList },
      fun _ => rfl, fun _ => rfl, fun _ => rfl⟩ now, some .processed)
  | .failed => (q, some .failed)
  | .ready folderId =>
    ({ q with
        running := (job.id, q.controllers) :: q.running.filter (·.1 ≠ job.id)
        controllers := q.controllers + 1 },
      some (.process ⟨job.id, job.driveFileId, job.hints, q.controllers, folderId, .file⟩))

/-- The loop of `drain` at its head. -/
def loop (client : Client) (now : Int) : Segment :=
  match q.nextQueued with
  | none => ({ q with draining := false }, none)
  | some job => q.startJob job client now

def drain (client : Client) (now : Int) : Segment :=
  if q.draining then (q, none) else { q with draining := true }.loop client now

end IngestQueue

/-! ## Files -/

def isAudioMimeType (mimeType : Text) : Bool :=
  startsWith mimeType "audio/".toList || startsWith mimeType "video/".toList

def isExtractableArtifactMimeType (mimeType : Text) : Bool :=
  startsWith mimeType "image/".toList || mimeType = "application/pdf".toList

/-- `GOOGLE_DOC_MIMES`, and the texts: what is read as a document. -/
def isDocumentMimeType (mimeType : Text) : Bool :=
  ["application/vnd.google-apps.document".toList, "application/vnd.google-apps.spreadsheet".toList,
    "application/vnd.google-apps.presentation".toList, "application/json".toList, "application/xml".toList,
    "application/x-yaml".toList].contains mimeType || startsWith mimeType "text/".toList

def unsupportedText (mimeType : Text) : Text :=
  "unsupported file type ".toList ++ mimeType ++
    " — audio, text, Google Docs, images, and PDFs are supported".toList

/-- The link of a file: the one that was cached, the one Drive gives, or the one of its id. -/
def sourceLinkOf (cached : Option Text) (file : DriveFile) : Text :=
  (cached.or file.webViewLink).getD ("https://drive.google.com/file/d/".toList ++ file.id ++ "/view".toList)

/-- The text that is stored: a header, and the body. -/
def contentOf (kind : BodyKind) (file : DriveFile) (sourceLink : Text) (extractedBy : Option Text) (body : Text) : Text :=
  let credit := match extractedBy.filter (· ≠ []) with
    | some provider => "\n".toList ++ (if kind = .voiceNote then "Transcribed".toList else "Extracted".toList) ++
        " by ".toList ++ provider ++ ".".toList
    | none => []
  kind.text ++ " \"".toList ++ file.name ++ "\" ingested from Google Drive.\nOriginal: ".toList ++ sourceLink ++ credit ++
    "\n\n".toList ++ body

/-- The kind of a body whose extraction was cached. -/
def cachedKind (provider : Option Text) : BodyKind :=
  if provider.any fun p => includes p "whisper".toList || includes p "transcrib".toList then .voiceNote else .mediaArtifact

/-- The step of a job that is done. -/
def doneStep (stored : StoreResult) : Option Text :=
  match stored.filing with
  | .uncertain => some ("Saved — filed to ".toList ++ stored.pagesTouched.head?.getD "the selected page".toList ++
      " with an open filing question logged in the page (review anytime).".toList)
  | .inbox => some "Saved — filed to Inbox; the filing question is logged in the note.".toList
  | .filed | .pending =>
    match stored.backlog with
    | some (_, count) =>
      if count = 0 then none
      else some ("Filed; proposed ".toList ++ (toString count).toList ++ " backlog candidate".toList ++
        if count = 1 then [] else ['s'])
    | none => none

/-! ## A job on its way -/

variable (durableStoreReceiptError : StoreResult → Option Text)

namespace Process

variable (p : Process) (q : IngestQueue)

/-- The next stage of the job. -/
def awaits (stage : Stage) : Option Frame := some (.process { p with stage := stage })

/-- The job is through: its controller goes. -/
def finish : Segment := ({ q with running := q.running.filter (·.1 ≠ p.id) }, some .processed)

/-- The `catch` of `process`: a cancelled job keeps its status. -/
def fail (message : Text) (now : Int) : Segment :=
  p.finish <|
    if q.aborted.contains p.controller then q
    else q.updateStatus p.id .error
      ⟨fun r => { r with step := none, error := some message }, fun _ => rfl, fun _ => rfl, fun _ => rfl⟩ now

/-- The body is there: the job is filed. -/
def filing (file : DriveFile) (kind : BodyKind) (sourceLink : Text) (extractedBy : Option Text) (body : Text) (cached : Bool)
    (now : Int) : Segment :=
  let step := (if cached then "Filing cached extraction for ".toList else "Filing ".toList) ++ file.name
  (q.updateStatus p.id .filing
      ⟨fun r => { r with step := some step, progress := 100 }, fun _ => rfl, fun _ => rfl, fun _ => rfl⟩ now,
    p.awaits (.engine file (contentOf kind file sourceLink extractedBy body)))

/-- The body is kept with the job. -/
def cache (body : Text) (provider : Option Text) (sourceLink : Text) (progress : Option Nat) (now : Int) : IngestQueue :=
  q.update p.id ⟨fun r => { r with
    cachedBody := some body, cachedProvider := provider, cachedSourceLink := some sourceLink
    progress := progress.getD r.progress }, fun _ => rfl, fun _ => rfl, fun _ => rfl⟩ now

/-- The file is known. -/
def onFile (file : DriveFile) (now : Int) : Segment :=
  let cached := q.cachedPayload p.id
  let sourceLink := sourceLinkOf (cached.bind (·.2.2)) file
  let q := q.updateStatus p.id .downloading
    ⟨fun r => { r with step := some ("Downloading ".toList ++ file.name), progress := 0 }, fun _ => rfl, fun _ => rfl,
      fun _ => rfl⟩ now
  match cached with
  | some (body, provider, _) => p.filing q file (cachedKind provider) sourceLink provider body true now
  | none =>
    if isAudioMimeType file.mimeType then (q, p.awaits (.audio file sourceLink))
    else if isExtractableArtifactMimeType file.mimeType then (q, p.awaits (.artifact file sourceLink))
    else if isDocumentMimeType file.mimeType then (q, p.awaits (.document file sourceLink))
    else p.fail q (unsupportedText file.mimeType) now

/-- The end of a job that was stored. -/
def complete (stored : StoreResult) (archived : Bool) (now : Int) : Segment :=
  p.finish <| q.updateStatus p.id .done ⟨fun r => { r with
    step := doneStep stored, progress := 100, evidenceRef := some stored.evidenceRef, pages := stored.pagesTouched
    revision := stored.revision, urls := stored.urls.getD [], commitSha := stored.commitSha
    githubUrls := stored.githubUrls.getD [], backlog := stored.backlog.map (·.1), archived := archived },
    fun _ => rfl, fun _ => rfl, fun _ => rfl⟩ now

/-- The receipt of the store is there: the original is archived. -/
def onStored (file : DriveFile) (stored : StoreResult) (now : Int) : Segment :=
  match durableStoreReceiptError stored with
  | some message => p.fail q ("invalid durable store receipt: ".toList ++ message) now
  | none =>
    let archiveRootId := p.folderId.or (file.parents.bind List.head?)
    if archiveRootId.any (· ≠ []) then (q, p.awaits (.folder file stored)) else p.complete q stored false now

/-- `Math.max(0, Math.min(100, percent))`. -/
def clamp (percent : Int) : Nat := (max 0 (min 100 percent)).toNat

/-- A segment of `process`; an answer of another kind is none. -/
def resume (answer : Except Text Answer) (now : Int) : Segment :=
  match p.stage, answer with
  | .folder _ stored, .error _ => p.complete q stored false now
  | .move _ stored, .error _ => p.complete q stored false now
  | _, .error message => p.fail q message now
  | .file, .ok (.file file) => p.onFile q file now
  | .audio file sourceLink, .ok .bytes =>
    (q.updateStatus p.id .transcribing
        ⟨fun r => { r with step := some ("Transcribing ".toList ++ file.name), progress := 0 }, fun _ => rfl, fun _ => rfl,
          fun _ => rfl⟩ now,
      p.awaits (.transcription file sourceLink))
  | .transcription _ _, .ok (.progress percent) =>
    (q.update p.id ⟨fun r => { r with progress := clamp percent }, fun _ => rfl, fun _ => rfl, fun _ => rfl⟩ now,
      some (.process p))
  | .transcription file sourceLink, .ok (.transcript body provider) =>
    p.filing (p.cache q body provider sourceLink (some 100) now) file .voiceNote sourceLink provider body false now
  | .artifact file sourceLink, .ok .bytes =>
    (q.updateStatus p.id .extracting
        ⟨fun r => { r with step := some ("Extracting ".toList ++ file.name), progress := 25 }, fun _ => rfl, fun _ => rfl,
          fun _ => rfl⟩ now,
      p.awaits (.artifactEngine file sourceLink))
  | .artifactEngine file sourceLink, .ok .engine => (q, p.awaits (.extraction file sourceLink))
  | .extraction file sourceLink, .ok (.extraction body provider) =>
    p.filing (p.cache q body provider sourceLink (some 100) now) file .mediaArtifact sourceLink provider body false now
  | .document file sourceLink, .ok (.text body) =>
    p.filing (p.cache q body none sourceLink none now) file .document sourceLink none body false now
  | .engine file _, .ok .engine => ({ q with log := q.log ++ [Event.store p.id] }, p.awaits (.store file))
  | .store file, .ok (.stored stored) => p.onStored durableStoreReceiptError q file stored now
  | .folder file stored, .ok .folder => (q, p.awaits (.move file stored))
  | .move _ stored, .ok .moved => p.complete q stored true now
  | _, .ok _ => (q, some (.process p))

end Process

/-! ## Calls -/

inductive Request
  | enqueue (id driveFileId fileName : Text) (hints : List Text)
  | retry (id : Text)
  | cancel (id : Text)
  | resume

/-- A call, what the clock says then, and the client if a job starts. -/
structure Call where
  request : Request
  now : Int
  client : Client := .ready none

namespace IngestQueue

variable (q : IngestQueue)

/-- `enqueue`, with the id that `randomUUID` draws. -/
def enqueue (id driveFileId fileName : Text) (hints : List Text) (client : Client) (now : Int) : Segment :=
  match q.activeForFile driveFileId with
  | some _ => q.drain client now
  | none =>
    match q.jobs.insert? {
        id := id, driveFileId := driveFileId, fileName := fileName, hints := hints, createdAt := now, updatedAt := now } with
    | none => (q, none)
    | some jobs => { q with jobs := jobs, log := q.log ++ [Event.status id .queued] }.drain client now

def retry (id : Text) (client : Client) (now : Int) : Segment :=
  match q.get id with
  | none => (q, none)
  | some job =>
    (q.updateStatus id .queued
      ⟨fun r => { r with progress := if job.cachedBody.isSome then 100 else 0, step := none, error := none },
        fun _ => rfl, fun _ => rfl, fun _ => rfl⟩ now).drain client now

def cancel (id : Text) (now : Int) : IngestQueue :=
  match q.get id with
  | none => q
  | some _ =>
    let q := q.updateStatus id .interrupted
      ⟨fun r => { r with step := some "cancelled".toList, progress := 0 }, fun _ => rfl, fun _ => rfl, fun _ => rfl⟩ now
    { q with aborted := (q.running.lookup id).toList ++ q.aborted }

def start (c : Call) (q : IngestQueue) : Segment :=
  match c.request with
  | .enqueue id driveFileId fileName hints => q.enqueue id driveFileId fileName hints c.client c.now
  | .retry id => q.retry id c.client c.now
  | .cancel id => (q.cancel id c.now, none)
  | .resume => q.drain c.client c.now

def resume (f : Frame) (r : Reply) (q : IngestQueue) : Segment :=
  match f with
  | .process p => p.resume durableStoreReceiptError q r.result r.now
  | .processed => q.loop r.client r.now
  | .failed => ({ q with draining := false }, none)

end IngestQueue

/-- The calls of one queue, between their waits. -/
def ingestion : Interleaving IngestQueue Call Frame Reply where
  start := IngestQueue.start
  resume := IngestQueue.resume durableStoreReceiptError

/-- The store as it is opened: what was in flight is interrupted. -/
def opened (jobs : Table JobRow) (now : Int) : Table JobRow :=
  jobs.update (·.status.isInFlight)
    (fun r => { r with
      status := .interrupted, step := some "interrupted by a server restart".toList, updatedAt := now }) fun _ _ => rfl

end Zenod.Ingest
