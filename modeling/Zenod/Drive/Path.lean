/-
Vault-relative paths as the Drive repository accepts them (`normalizePath` of
`vault/driveRepository.ts`), over the `posix.normalize` of Node.
-/
import Zenod.Lib.Text

namespace Zenod.Drive

open Text

/-- One segment of a path on the ones before it, which stand in reverse. -/
def normalizeStep (allowAboveRoot : Bool) (segments : List Text) (segment : Text) : List Text :=
  if segment = [] ∨ segment = ".".toList then segments
  else if segment = "..".toList then
    match segments with
    | last :: rest => if last = "..".toList then (if allowAboveRoot then segment :: segments else segments) else rest
    | [] => if allowAboveRoot then [segment] else []
  else segment :: segments

/-- `posix.normalize(path)`. -/
def posixNormalize (path : Text) : Text :=
  if path = [] then ".".toList
  else
    let isAbsolute := startsWith path "/".toList
    let trailing := path.getLast? == some '/'
    let segments := ((path.splitOn '/').foldl (normalizeStep (!isAbsolute)) []).reverse
    let joined := ['/'].intercalate segments
    if joined = [] then (if isAbsolute then "/".toList else if trailing then "./".toList else ".".toList)
    else (if isAbsolute then "/".toList else []) ++ joined ++ if trailing then "/".toList else []

def gitFolder : Text := ".git".toList

def controlFolder : Text := ".zenod".toList

inductive PathError
  | invalid (path : Text)
  | reserved (path : Text)
deriving DecidableEq

def normalizePath (path : Text) : Except PathError Text :=
  let posix := posixNormalize (path.map fun c => if c = Char.ofNat 0x5c then '/' else c)
  let normalized := if startsWith posix "./".toList then posix.drop 2 else posix
  if normalized = [] ∨ normalized = ".".toList ∨ startsWith normalized "../".toList ∨
      startsWith normalized "/".toList then throw (.invalid path)
  else if normalized = gitFolder ∨ startsWith normalized (gitFolder ++ "/".toList) ∨
      normalized = controlFolder ∨ startsWith normalized (controlFolder ++ "/".toList) then throw (.reserved path)
  else return normalized

/-- A path that `normalizePath` takes as it is. -/
def NormalPath (path : Text) : Prop := normalizePath path = .ok path

instance (path : Text) : Decidable (NormalPath path) := by unfold NormalPath; infer_instance

example : normalizePath "Log/../Notes/./A.md".toList = .ok "Notes/A.md".toList := by decide

end Zenod.Drive
