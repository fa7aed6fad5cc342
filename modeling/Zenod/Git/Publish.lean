/-
Guarded publication (`VaultRepo.commitAndPublish` with a guard,
`verifyPublicationFiles`): a plan of paths and content hashes is compared with
the pending changes before the commit and with `git diff --name-only` after it.

The clone, its object store and what the call meets of the remote are explicit.
Of git, the rename detection of `diff` is a parameter (`DiffLibrary`), of Node
the hash.
-/
import Mathlib.Data.List.Dedup
import Zenod.Git.Status
import Zenod.Lib.Dag

namespace Zenod.Git

open Evidence (FileChange Tree)
open Text

/-! ## Commits -/

/-- The files of a commit. -/
structure FileTree where
  paths : List Text
  text : Tree
  supported : ∀ p, p ∉ paths → text p = none
  named : [] ∉ paths

structure Commit where
  parents : List Nat
  tree : FileTree

/-- What `git diff` takes for renames between two trees: source and target. -/
structure DiffLibrary where
  renames : FileTree → FileTree → List (Text × Text)
  renames_ok : ∀ a b, ∀ r ∈ renames a b,
    (a.text r.1).isSome ∧ b.text r.1 = none ∧ a.text r.2 = none ∧ (b.text r.2).isSome

def DiffLibrary.isSource (diff : DiffLibrary) (a b : FileTree) (p : Text) : Bool :=
  (diff.renames a b).any (·.1 = p)

/-- `git diff --name-only a b`: a rename shows under its target only. -/
def nameOnly (diff : DiffLibrary) (a b : FileTree) : List Text :=
  (a.paths ++ b.paths).dedup.filter fun p => a.text p ≠ b.text p ∧ diff.isSource a b p = false

/-! ## The plan -/

inductive Provider | github | drive
deriving DecidableEq, Repr

structure Revision where
  provider : Provider
  id : Nat
deriving DecidableEq

/-- `VaultPublicationGuard`; what `assertActive` answers is met with the environment. -/
structure Guard where
  expectedRevision : Revision
  receiptPath : Text
  /-- Path and content hash; no hash for a deletion. -/
  expectedFiles : List (Text × Option String)
  keys_nodup : (expectedFiles.map (·.1)).Nodup

def Guard.keys (guard : Guard) : List Text := guard.expectedFiles.map (·.1)

/-- `guard.expectedFiles[path]`. -/
def Guard.expected (guard : Guard) (path : Text) : Option (Option String) :=
  (guard.expectedFiles.find? (·.1 = path)).map (·.2)

variable (hash : Text → String)

def publicationContentHash (content : Option Text) : Option String := content.map hash

/-- `verifyPublicationFiles`, as the condition under which it does not throw. -/
def filesMatch (changes : List FileChange) (guard : Guard) : Bool :=
  guard.keys.contains guard.receiptPath &&
  (guard.expected guard.receiptPath).join.any (· != "") &&
  join (sort guard.keys) == join (sort (changes.map (·.path))) &&
  changes.all fun change =>
    guard.expected change.path == some (publicationContentHash hash change.after) &&
    !(change.path == guard.receiptPath && change.before == change.after)

/-! ## The call -/

inductive PublishError | conflict | inactive | unavailable
deriving DecidableEq

/-- A clone: the commits it knows, its branch, and its working copy, whose HEAD is the branch's commit. -/
structure Clone where
  commits : List Commit
  head : Nat
  copy : WorkingCopy
  acyclic : Dag.Acyclic (·.parents) commits
  head_ok : ∃ c, commits[head]? = some c ∧ c.tree.text = copy.head
  named : [] ∉ copy.paths

def Clone.workTree (clone : Clone) : FileTree where
  paths := clone.copy.paths
  text := clone.copy.commit
  supported p hp := (clone.copy.supported p hp).2.2
  named := clone.named

/-- What the call meets outside the clone. -/
structure Environment where
  /-- The published commit, at the first fetch. -/
  published : Nat
  /-- `guard.assertActive` does not throw, before the commit and before the push. -/
  firstActive : Bool := true
  secondActive : Bool := true
  /-- The remote branch when the push reaches it, if it does. -/
  atPush : Nat
  arrives : Bool := true
  /-- Commits of others, and where the branch is at the last fetch for where the push left it. -/
  others : List Commit := []
  after : Nat → Nat := id

structure Publication where
  commits : List Commit
  head : Nat
  last : Nat
  pushed : Bool

/-- `git add -A` and `git commit`; without a change there is nothing to commit. -/
def Clone.commit (clone : Clone) : List Commit × Nat :=
  if clone.copy.paths.all fun p => clone.copy.head p = clone.copy.work p then (clone.commits, clone.head)
  else (clone.commits ++ [{ parents := [clone.head], tree := clone.workTree }], clone.commits.length)

def revisionChanges (diff : DiffLibrary) (base target : FileTree) : List FileChange :=
  (nameOnly diff base target).map fun p => { path := p, before := base.text p, after := target.text p }

variable (lib : StatusLibrary) (diff : DiffLibrary)

/-- Up to the commit: the store and the commit to publish. -/
def prepare (guard : Guard) (env : Environment) (clone : Clone) : Except PublishError (List Commit × Nat) :=
  let pending := pendingChanges clone.copy lib
  if pending = [] then return (clone.commits, clone.head)
  else if guard.expectedRevision ≠ ⟨.github, env.published⟩ then throw .conflict
  else if clone.head ≠ guard.expectedRevision.id then throw .conflict
  else if filesMatch hash pending guard = false then throw .conflict
  else if env.firstActive = false then throw .inactive
  else return clone.commit

/-- From the commit on: the check of its diff, the push and the last fetch. -/
def publish (guard : Guard) (env : Environment) (commits : List Commit) (head : Nat) :
    Except PublishError Publication :=
  match commits[head]?, commits[guard.expectedRevision.id]? with
  | some c, some base =>
    if c.parents ≠ [guard.expectedRevision.id] then throw .conflict
    else if filesMatch hash (revisionChanges diff base.tree c.tree) guard = false then throw .conflict
    else
      let contained := Dag.reaches (·.parents) commits head env.published
      if env.published ≠ guard.expectedRevision.id ∧ contained = false then throw .conflict
      else if contained = false ∧ env.secondActive = false then throw .inactive
      else
        let commits := commits ++ env.others
        let pushed := !contained && env.arrives && Dag.reaches (·.parents) commits env.atPush head
        let last := env.after (bif pushed then head else env.atPush)
        if Dag.reaches (·.parents) commits head last = false then throw .conflict
        else return { commits := commits, head := head, last := last, pushed := pushed }
  | _, _ => throw .unavailable

def publishGuardedFiling (guard : Guard) (env : Environment) (clone : Clone) : Except PublishError Publication := do
  let (commits, head) ← prepare hash lib guard env clone
  publish hash diff guard env commits head

end Zenod.Git
