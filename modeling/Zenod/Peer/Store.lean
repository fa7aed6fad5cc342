/-
The store of skill artifacts (`PeerSkillStore` of `server/peerSkillStore.ts`)
and the puts that overlap on it.

An artifact is a directory named by its digest: the metadata of its
`artifact.json`, and the tree of its files. A put prepares its bundle at once
and then waits for the lock of the directory; the one that holds it looks the
artifact up, checks the quota, writes a directory of its own, renames it into
place and reads it back. Each of these may fail, with what the file system
throws. `get`, `download` and `load` only read.
-/
import Zenod.Lib.Table
import Zenod.Peer.Bundle

namespace Zenod.Peer

open Keyed Text Bytes PEER_SKILL_LIMITS

/-- What the program takes from its runtime and its libraries. -/
structure Libraries where
  collation : Collation
  sha256 : Octets → Digest
  yaml : PeerYaml

/-! ## Directories -/

/-- A path below a directory, and what stands there: a file's bytes, or none for a directory. -/
structure TreeNode where
  path : List Text
  content : Option Octets
deriving DecidableEq

instance : Keyed TreeNode where
  clash a b := a.path == b.path
  clash_symm _ _ := Bool.beq_comm

abbrev Tree := Table TreeNode

def Tree.node? (tree : Tree) (path : List Text) : Option TreeNode := tree.rows.find? (·.path == path)

/-- The directory itself, which `mkdir` made. -/
def Tree.fresh : Tree := ⟨[{ path := [], content := none }], List.pairwise_singleton _ _⟩

/-- One directory of `mkdir(…, { recursive: true })`; a file is in its way. -/
def Tree.enter (tree : Tree) (path : List Text) : Option Tree :=
  match tree.node? path with
  | none => tree.insert? { path := path, content := none }
  | some node => if node.content = none then some tree else none

/-- The directories above a target, and the file with the flag `wx`. -/
def Tree.write (tree : Tree) (target : List Text) (bytes : Octets) : Option Tree := do
  let tree ← target.dropLast.inits.foldlM Tree.enter tree
  tree.insert? { path := target, content := some bytes }

/-- `join(directory, "files", ...path.split("/"))`, below the directory. -/
def targetOf (path : Text) : List Text :=
  ((path.splitOn '/').foldl (Drive.normalizeStep true) ["files".toList]).reverse

def Tree.writeFiles (tree : Tree) (files : List PreparedFile) : Option Tree :=
  files.foldlM (fun tree file => tree.write (targetOf file.path) file.bytes) tree

/-! ## Artifacts -/

structure PeerSkillAttachmentRef where
  artifactId : Text
  version : Text
deriving DecidableEq

structure PeerSkillArtifactMetadata extends PeerSkillAttachmentRef where
  name : Text
  description : Text
  createdAt : Text
  totalBytes : Nat
  files : List PeerSkillFileMetadata
deriving DecidableEq

/-- The directory of an artifact: its `artifact.json`, and its files. -/
structure Artifact where
  digest : Digest
  metadata : PeerSkillArtifactMetadata
  tree : Tree
deriving DecidableEq

instance : Keyed Artifact where
  clash a b := a.digest == b.digest
  clash_symm _ _ := Bool.beq_comm

abbrev Artifacts := Table Artifact

def Artifacts.artifact? (artifacts : Artifacts) (digest : Digest) : Option Artifact :=
  artifacts.rows.find? (·.digest == digest)

def scheme : Text := "sha256:".toList

/-- `artifactDir`, of a reference that `validateRef` takes. -/
def digestOf (artifactId : Text) : Option Digest :=
  if h : isHexDigest (artifactId.drop scheme.length) = true then
    if startsWith artifactId scheme then some ⟨artifactId.drop scheme.length, h⟩ else none
  else none

def validateRef (ref : PeerSkillAttachmentRef) : Except SkillError Digest :=
  match digestOf ref.artifactId with
  | none => throw .notFound
  | some digest => if ref.version = [] ∨ utf16Length ref.version > 100 then throw .notFound else return digest

def get (artifacts : Artifacts) (ref : PeerSkillAttachmentRef) : Except SkillError PeerSkillArtifactMetadata := do
  let digest ← validateRef ref
  match artifacts.artifact? digest with
  | none => throw .notFound
  | some artifact =>
    if artifact.metadata.artifactId ≠ ref.artifactId ∨ artifact.metadata.version ≠ ref.version then throw .notFound
    else return artifact.metadata

/-! ## Reading -/

/-- `bytes.toString("base64")`: the digits of base64url with two others, and `=` up to a multiple of four. -/
def toBase64Padded (bytes : Octets) : Text :=
  (toBase64 bytes).map (fun c => if c = '-' then '+' else if c = '_' then '/' else c) ++
    List.replicate ((3 - bytes.length % 3) % 3) '='

structure DownloadedFile where
  path : Text
  contentBase64 : Text
deriving DecidableEq

structure PeerSkillBundleDownload where
  artifact : PeerSkillArtifactMetadata
  files : List DownloadedFile
deriving DecidableEq

structure LoadedPeerSkill where
  artifact : PeerSkillArtifactMetadata
  skillMarkdown : Text
  inventory : List PeerSkillFileMetadata
deriving DecidableEq

variable (lib : Libraries)

/-- A file of the inventory, checked against it. -/
def readVerified (tree : Tree) (file : PeerSkillFileMetadata) (target : List Text) : Except SkillError Octets :=
  match tree.node? target with
  | none => throw .fileSystem
  | some node =>
    match node.content with
    | none => throw .storedInvalid
    | some bytes => if bytes.length ≠ file.size ∨ lib.sha256 bytes ≠ file.sha256 then throw .integrity else return bytes

def downloadFile (tree : Tree) (file : PeerSkillFileMetadata) : Except SkillError DownloadedFile := do
  let path ← safeRelativePath (some file.path)
  let bytes ← readVerified lib tree file (targetOf path)
  return { path := file.path, contentBase64 := toBase64Padded bytes }

/-- The tree of the artifact that `get` found. -/
def treeOf (artifacts : Artifacts) (artifact : PeerSkillArtifactMetadata) : Tree :=
  (((digestOf artifact.artifactId).bind artifacts.artifact?).map (·.tree)).getD .empty

def download (artifacts : Artifacts) (ref : PeerSkillAttachmentRef) : Except SkillError PeerSkillBundleDownload := do
  let artifact ← get artifacts ref
  let files ← artifact.files.mapM (downloadFile lib (treeOf artifacts artifact))
  return { artifact := artifact, files := files }

/-- The version of a bundle whose manifest declares none. -/
def versionOfManifest (parsed : SkillManifest) (artifactId : Text) : Text :=
  parsed.version.getD ((artifactId.drop scheme.length).take 12)

/-- The files of the inventory, behind the paths seen; what is returned is the text of `SKILL.md`. -/
def loadFiles (tree : Tree) (artifact : PeerSkillArtifactMetadata) (seen : List Text) (skillMarkdown : Option Text) :
    List PeerSkillFileMetadata → Except SkillError (Option Text)
  | [] => return skillMarkdown
  | file :: files => do
    let path ← safeRelativePath (some file.path)
    if path ∈ seen then throw .duplicateStored
    if path ≠ skillMd then loadFiles tree artifact (path :: seen) skillMarkdown files
    else
      let bytes ← readVerified lib tree file ["files".toList, skillMd]
      let parsed ← parseSkillManifest lib.yaml bytes
      if parsed.name ≠ artifact.name ∨ parsed.description ≠ artifact.description ∨
          versionOfManifest parsed artifact.artifactId ≠ artifact.version then throw .metadataIntegrity
      loadFiles tree artifact (path :: seen) (some (decodeUtf8 bytes)) files

def load (artifacts : Artifacts) (ref : PeerSkillAttachmentRef) : Except SkillError LoadedPeerSkill := do
  let artifact ← get artifacts ref
  let skillMarkdown ← loadFiles lib (treeOf artifacts artifact) artifact [] none artifact.files
  match skillMarkdown with
  | none => throw .noSkillMd
  | some skillMarkdown => return { artifact := artifact, skillMarkdown := skillMarkdown, inventory := artifact.files }

/-! ## A put -/

/-- What a put has worked out before it asks for the lock. -/
structure PreparedPut where
  inputs : List PeerSkillFileInput
  files : List PreparedFile
  parsed : SkillManifest
  digest : Digest
deriving DecidableEq

def PreparedPut.artifactId (put : PreparedPut) : Text := scheme ++ put.digest.val

def PreparedPut.version (put : PreparedPut) : Text := versionOfManifest put.parsed put.artifactId

def PreparedPut.ref (put : PreparedPut) : PeerSkillAttachmentRef :=
  { artifactId := put.artifactId, version := put.version }

def PreparedPut.totalBytes (put : PreparedPut) : Nat := (put.files.map (·.size)).sum

def PreparedPut.metadata (put : PreparedPut) (createdAt : Text) : PeerSkillArtifactMetadata :=
  { artifactId := put.artifactId, version := put.version, name := put.parsed.name
    description := put.parsed.description, createdAt := createdAt, totalBytes := put.totalBytes
    files := put.files.map (·.toPeerSkillFileMetadata) }

/-- What `put` does at once. -/
def preparePut (inputs : List PeerSkillFileInput) : Except SkillError PreparedPut := do
  let files ← prepareFiles lib.collation lib.sha256 inputs
  match files.find? (·.path = skillMd) with
  | none => throw .noManifest
  | some manifestFile =>
    let parsed ← parseSkillManifest lib.yaml manifestFile.bytes
    return { inputs := inputs, files := files, parsed := parsed, digest := artifactDigest lib.sha256 files }

/-- The bytes that an artifact counts for; one whose `artifact.json` cannot be read counts for the most. -/
def countedBytes (unreadable : List Digest) (artifact : Artifact) : Nat :=
  if artifact.digest ∈ unreadable then maxBundleBytes else artifact.metadata.totalBytes

def enforceTenantQuota (artifacts : Artifacts) (unreadable : List Digest) (incomingBytes : Nat) : Except SkillError Unit :=
  if artifacts.rows.length ≥ maxArtifactsPerTenant then throw .quota
  else if (artifacts.rows.map (countedBytes unreadable)).sum + incomingBytes > maxTenantBytes then throw .quota
  else return ()

/-! ## The lock -/

/-- How far the put that holds the lock has come. -/
inductive Stage
  | lookup
  | quota
  | writing
  | publish (metadata : PeerSkillArtifactMetadata) (tree : Tree)
  | readBack
deriving DecidableEq

/-- The put that holds the lock, and the artifacts when it was given it. -/
structure Holder where
  put : PreparedPut
  stage : Stage
  before : Artifacts
deriving DecidableEq

/-- A put that is over: what it was given, how it ended, and the artifacts before and after it. -/
structure Finished where
  inputs : List PeerSkillFileInput
  outcome : Except SkillError PeerSkillArtifactMetadata
  before : Artifacts
  after : Artifacts

structure Store where
  artifacts : Artifacts := .empty
  holder : Option Holder := none
  waiting : List PreparedPut := []
  finished : List Finished := []

/-- What meets the put that holds the lock: a failure, files it cannot read, and the time. -/
structure Conditions where
  fails : Bool := false
  unreadable : List Digest := []
  now : Text := []

/-- The lock goes to the one that has waited longest. -/
def Store.grant (s : Store) : Store :=
  match s.waiting with
  | [] => { s with holder := none }
  | put :: waiting => { s with holder := some { put := put, stage := .lookup, before := s.artifacts }, waiting := waiting }

/-- The holder's put is over, and the lock released. -/
def Store.finish (s : Store) (holder : Holder) (outcome : Except SkillError PeerSkillArtifactMetadata) : Store :=
  ({ s with finished := s.finished ++
      [{ inputs := holder.put.inputs, outcome := outcome, before := holder.before, after := s.artifacts }] } : Store).grant

def Store.goOn (s : Store) (holder : Holder) (stage : Stage) : Store :=
  { s with holder := some { holder with stage := stage } }

/-- The next step of the put that holds the lock. -/
def Store.work (s : Store) (holder : Holder) (conditions : Conditions) : Store :=
  if conditions.fails then s.finish holder (.error .fileSystem)
  else
    match holder.stage with
    | .lookup =>
      match get s.artifacts holder.put.ref with
      | .ok metadata => s.finish holder (.ok metadata)
      | .error error => if error = .notFound then s.goOn holder .quota else s.finish holder (.error error)
    | .quota =>
      match enforceTenantQuota s.artifacts conditions.unreadable holder.put.totalBytes with
      | .error error => s.finish holder (.error error)
      | .ok () => s.goOn holder .writing
    | .writing =>
      match Tree.fresh.writeFiles holder.put.files with
      | none => s.finish holder (.error .fileSystem)
      | some tree => s.goOn holder (.publish (holder.put.metadata conditions.now) tree)
    | .publish metadata tree =>
      -- A directory that is not empty is not renamed onto.
      match s.artifacts.insert? { digest := holder.put.digest, metadata := metadata, tree := tree } with
      | none => s.finish holder (.error .fileSystem)
      | some artifacts => ({ s with artifacts := artifacts } : Store).goOn holder .readBack
    | .readBack => s.finish holder (get s.artifacts holder.put.ref)

/-- A put is called: it fails at once, or asks for the lock. -/
def Store.put (s : Store) (inputs : List PeerSkillFileInput) : Store :=
  match preparePut lib inputs with
  | .error error =>
    { s with finished := s.finished ++
        [{ inputs := inputs, outcome := .error error, before := s.artifacts, after := s.artifacts }] }
  | .ok put =>
    let s := { s with waiting := s.waiting ++ [put] }
    if s.holder = none then s.grant else s

inductive Op
  | put (inputs : List PeerSkillFileInput)
  | advance (conditions : Conditions)
  | get (ref : PeerSkillAttachmentRef)
  | download (ref : PeerSkillAttachmentRef)
  | load (ref : PeerSkillAttachmentRef)

def exec (s : Store) : Op → Store
  | .put inputs => s.put lib inputs
  | .advance conditions =>
    match s.holder with
    | none => s
    | some holder => s.work holder conditions
  | .get _ | .download _ | .load _ => s

def run (ops : List Op) : Store := ops.foldl (exec lib) {}

end Zenod.Peer
