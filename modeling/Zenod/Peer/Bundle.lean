/-
The skill bundles that peers hand over (`server/peerSkillStore.ts`): what of
the files of a bundle is checked, the order in which they are kept, the
manifest, and the digest by which an artifact is addressed.

The collation of `localeCompare`, SHA-256 and the YAML library are parameters.
-/
import Zenod.Drive.Path
import Zenod.Lib.Bytes
import Zenod.Lib.Json
import Zenod.Lib.Outcome
import Zenod.Lib.Regex
import Zenod.Vault.Note

namespace Zenod.Peer

open Text Bytes Vault

namespace PEER_SKILL_LIMITS

def maxFiles : Nat := 128
def maxFileBytes : Nat := 1048576
def maxBundleBytes : Nat := 4194304
def maxArtifactsPerTenant : Nat := 16
def maxTenantBytes : Nat := 32 * 1024 * 1024

end PEER_SKILL_LIMITS

open PEER_SKILL_LIMITS

abbrev Octets := List Nat

/-- One entry of a request; a path or a content that is no string is absent. -/
structure PeerSkillFileInput where
  path : Option Text
  content : Option Text := none
  contentBase64 : Option Text := none
  kind : Option Text := none
deriving DecidableEq

/-- `/^[a-f0-9]{64}$/`. -/
def isHexDigest (t : Text) : Bool := t.length == 64 && t.all fun c => "0123456789abcdef".toList.contains c

/-- What `digest("hex")` of SHA-256 gives. -/
abbrev Digest := { t : Text // isHexDigest t = true }

inductive SkillError
  | pathInvalid
  | pathNotRelative (path : Text)
  | pathNotSafe (path : Text)
  | notRegular (path : Option Text)
  | encodings (path : Option Text)
  | invalidBase64 (path : Option Text)
  | noFiles
  | tooManyFiles
  | duplicatePath (path : Text)
  | fileTooLarge (path : Text)
  | bundleTooLarge
  | noManifest
  | noFrontmatter
  | malformed (message : Text)
  /-- What the YAML library throws when it makes values of a document. -/
  | yaml (message : Text)
  | notMapping
  | nameAndDescription
  | manifestTooLarge
  | versionKind
  | notFound
  | quota
  | storedInvalid
  | integrity
  | duplicateStored
  | inventoryInvalid
  | metadataIntegrity
  | noSkillMd
  /-- An operation of the file system that failed. -/
  | fileSystem
deriving DecidableEq

/-- `${path}` of a path that may be absent. -/
def shown (path : Option Text) : Text := path.getD "undefined".toList

/-- The message of an error; an error of the file system has its own. -/
def SkillError.message : SkillError → Text
  | pathInvalid => "Skill file path is invalid.".toList
  | pathNotRelative path => "Skill file path must be relative: ".toList ++ path
  | pathNotSafe path => "Skill file path is not path-safe: ".toList ++ path
  | notRegular path => "Skill bundle entry is not a regular file: ".toList ++ shown path
  | encodings path => "Skill file must have exactly one content encoding: ".toList ++ shown path
  | invalidBase64 path => "Skill file has invalid base64 content: ".toList ++ shown path
  | noFiles => "Skill bundle has no files.".toList
  | tooManyFiles => "Skill bundle has too many files.".toList
  | duplicatePath path => "Skill bundle has a duplicate path: ".toList ++ path
  | fileTooLarge path => "Skill file is too large: ".toList ++ path
  | bundleTooLarge => "Skill bundle is too large.".toList
  | noManifest => "Skill bundle requires SKILL.md at its root.".toList
  | noFrontmatter => "SKILL.md must begin with YAML frontmatter.".toList
  | malformed message => "SKILL.md frontmatter is malformed: ".toList ++ message
  | yaml message => message
  | notMapping => "SKILL.md frontmatter must be a mapping.".toList
  | nameAndDescription => "SKILL.md frontmatter requires non-empty name and description.".toList
  | manifestTooLarge => "SKILL.md name or description exceeds the supported size.".toList
  | versionKind => "SKILL.md version must be a string or number when present.".toList
  | notFound => "Peer skill artifact not found.".toList
  | quota => "Tenant peer skill artifact quota exceeded.".toList
  | storedInvalid => "Stored skill artifact is invalid.".toList
  | integrity => "Stored skill artifact failed integrity verification.".toList
  | duplicateStored => "Stored skill artifact has duplicate paths.".toList
  | inventoryInvalid => "Stored skill artifact inventory is invalid.".toList
  | metadataIntegrity => "Stored skill artifact metadata failed integrity verification.".toList
  | noSkillMd => "Stored skill artifact has no SKILL.md.".toList
  | fileSystem => []

/-! ## Files -/

/-- `/^[a-zA-Z]:/`. -/
def hasDrive : Text → Bool
  | c :: ':' :: _ => c.isAlpha
  | _ => false

def safeRelativePath (value : Option Text) : Except SkillError Text :=
  match value with
  | none => throw .pathInvalid
  | some value =>
    if value = [] ∨ utf16Length value > 240 ∨ Char.ofNat 0 ∈ value ∨ Char.ofNat 0x5c ∈ value then throw .pathInvalid
    else if startsWith value "/".toList ∨ hasDrive value then throw (.pathNotRelative value)
    else
      let normalized := Drive.posixNormalize value
      if normalized ≠ value ∨ normalized = ".".toList ∨ startsWith normalized "../".toList then throw (.pathNotSafe value)
      else return normalized

def isBase64Char (c : Char) : Bool := c.isAlphanum || c == '+' || c == '/'

/-- `/^(?:[A-Za-z0-9+/]{4})*(?:[A-Za-z0-9+/]{2}==|[A-Za-z0-9+/]{3}=)?$/`. -/
def isBase64 : Text → Bool
  | [] => true
  | [a, b, '=', '='] => isBase64Char a && isBase64Char b
  | [a, b, c, '='] => isBase64Char a && isBase64Char b && isBase64Char c
  | a :: b :: c :: d :: t => isBase64Char a && isBase64Char b && isBase64Char c && isBase64Char d && isBase64 t
  | _ => false

def decodeFile (input : PeerSkillFileInput) : Except SkillError Octets :=
  -- An empty `kind` is none.
  if input.kind.any (fun kind => kind ≠ [] ∧ kind ≠ "file".toList) then throw (.notRegular input.path)
  else
    match input.content, input.contentBase64 with
    | some content, none => return utf8 content
    | none, some encoded =>
      if isBase64 encoded then return fromBase64 encoded else throw (.invalidBase64 input.path)
    | _, _ => throw (.encodings input.path)

structure PeerSkillFileMetadata where
  path : Text
  size : Nat
  sha256 : Digest
deriving DecidableEq

structure PreparedFile extends PeerSkillFileMetadata where
  bytes : Octets
deriving DecidableEq

def skillMd : Text := "SKILL.md".toList

variable (collation : Collation) (sha256 : Octets → Digest)

def preparedFile (path : Text) (bytes : Octets) : PreparedFile :=
  { path := path, bytes := bytes, size := bytes.length, sha256 := sha256 bytes }

/-- The inputs one after the other, behind the paths seen and the bytes counted so far. -/
def prepareEach (seen : List Text) (totalBytes : Nat) : List PeerSkillFileInput → Except SkillError (List PreparedFile)
  | [] => return []
  | input :: inputs => do
    let path ← safeRelativePath input.path
    if path ∈ seen then throw (.duplicatePath path)
    let bytes ← decodeFile input
    if bytes.length > maxFileBytes then throw (.fileTooLarge path)
    if totalBytes + bytes.length > maxBundleBytes then throw .bundleTooLarge
    let files ← prepareEach (path :: seen) (totalBytes + bytes.length) inputs
    return preparedFile sha256 path bytes :: files

/-- `sort((left, right) => left.path.localeCompare(right.path))`. -/
def sortFiles (files : List PreparedFile) : List PreparedFile :=
  files.insertionSort fun left right => collation.le left.path right.path = true

def prepareFiles (inputs : List PeerSkillFileInput) : Except SkillError (List PreparedFile) := do
  if inputs = [] then throw .noFiles
  if inputs.length > maxFiles then throw .tooManyFiles
  let files ← prepareEach sha256 [] 0 inputs
  if skillMd ∉ files.map (·.path) then throw .noManifest
  return sortFiles collation files

/-! ## The manifest -/

/-- `yaml`: the errors of a document, or what `toJS` makes of it or throws; a number by its text. -/
structure PeerYaml where
  parseDocument : Text → Except Text (Except Text Value)

structure SkillManifest where
  name : Text
  description : Text
  version : Option Text
deriving DecidableEq

/-- `\r?\n`. -/
def newline : Regex := .seq (.upTo 1 (.lit [Char.ofNat 0x0d])) (.lit ['\n'])

/-- `/^---\r?\n([\s\S]*?)\r?\n---(?:\r?\n|$)/`. -/
def frontmatterPattern : Regex :=
  .seq .start (.seq (.lit ['-']) (.seq (.lit ['-']) (.seq (.lit ['-']) (.seq newline
    (.seq (.group 1 (.star false (.one fun _ => true))) (.seq newline
      (.seq (.lit ['-']) (.seq (.lit ['-']) (.seq (.lit ['-']) (.alt newline .stop))))))))))

/-- `typeof value === "string" ? value.trim() : ""`. -/
def trimmed (value : Option Value) : Text :=
  match value with
  | some (.str t) => trim t
  | _ => []

/-- `metadata?.version ?? record.version`. -/
def declaredVersion (record : Frontmatter) : Option Value :=
  let ofMetadata := match record.get "metadata".toList with
    | some (.map metadata) => Frontmatter.get metadata "version".toList
    | _ => none
  match ofMetadata with
  | none | some .null => record.get "version".toList
  | some version => some version

/-- The version as it is declared; one that is blank is none. -/
def versionOf (declared : Option Value) : Except SkillError (Option Text) :=
  let kept (t : Text) := if trim t = [] then none else some (trim t)
  match declared with
  | none => return none
  | some (.str t) => return kept t
  | some (.num t) => return kept t
  | some _ => throw .versionKind

def readManifest (record : Frontmatter) : Except SkillError SkillManifest := do
  let name := trimmed (record.get "name".toList)
  let description := trimmed (record.get "description".toList)
  if name = [] ∨ description = [] then throw .nameAndDescription
  if utf16Length name > 100 ∨ utf16Length description > 2000 then throw .manifestTooLarge
  let version ← versionOf (declaredVersion record)
  return { name := name, description := description, version := version }

variable (yaml : PeerYaml)

def parseSkillManifest (bytes : Octets) : Except SkillError SkillManifest :=
  match (Regex.matchAt Regex.plain frontmatterPattern [] (decodeUtf8 bytes)).bind (·.group 1) with
  | none => throw .noFrontmatter
  | some source =>
    match yaml.parseDocument source with
    | .error message => throw (.malformed message)
    | .ok (.error message) => throw (.yaml message)
    | .ok (.ok (.map record)) => readManifest record
    | .ok (.ok _) => throw .notMapping

/-! ## The address -/

/-- `String(n)`. -/
def decimal (n : Nat) : Text := Nat.toDigits 10 n

/-- What one file adds to what is hashed. -/
def chunk (file : PreparedFile) : Octets :=
  utf8 (decimal (utf8 file.path).length) ++ utf8 ":".toList ++ utf8 file.path ++ utf8 ":".toList ++
    utf8 (decimal file.size) ++ utf8 ":".toList ++ file.bytes

def artifactDigest (files : List PreparedFile) : Digest := sha256 (files.flatMap chunk)

end Zenod.Peer
