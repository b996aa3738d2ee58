import Sandshell.Workspace.Host

/-!
# Workspaces

The store that commands read and write through. A workspace is a state with five calls; each call
takes a path as text and checks it itself.
-/

namespace Sandshell

/-- Why a call on a workspace fails. -/
inductive WorkspaceError where
  | notFound (path : String)
  | notADirectory (path : String)
  | isADirectory (path : String)
  | invalidPath (path : String)
  | io (message : String)
  | backend (message : String)
  /-- There is no end to the step, so that nothing comes of it. -/
  | endless
deriving DecidableEq, Repr, Inhabited

/-- The wording of a failed call. -/
def WorkspaceError.message : WorkspaceError → String
  | .notFound p => p ++ ": No such file or directory"
  | .notADirectory p => p ++ ": Not a directory"
  | .isADirectory p => p ++ ": Is a directory"
  | .invalidPath p => "invalid path: " ++ p
  | .io m => "IO error: " ++ m
  | .backend m => "workspace error: " ++ m
  | .endless => ""

/-- What stands at a path. -/
inductive EntryKind where
  | file
  | directory
deriving DecidableEq, Repr, Inhabited

/-- Kind and size of what stands at a path; a directory has size zero. -/
structure Stat where
  kind : EntryKind
  size : Nat
deriving DecidableEq, Repr, Inhabited

/-- An entry of a directory. -/
structure DirEntry where
  name : String
  kind : EntryKind
deriving DecidableEq, Repr, Inhabited

/-- A step on a workspace; what it did before failing stays done. -/
abbrev WorkspaceM (W : Type) := ExceptT WorkspaceError (StateM W)

/-- The step comes to an end wherever it begins. -/
def Returns {W α : Type} (step : WorkspaceM W α) : Prop :=
  ∀ w, (step w).1 ≠ .error .endless

/-- The result of a step, be it a failure. -/
def observing {W α : Type} (step : WorkspaceM W α) : WorkspaceM W (Except WorkspaceError α) :=
  fun w =>
    let (result, after) := step w
    (.ok result, after)

/-- The host directory behind a workspace, with the way to put a changed host back. -/
structure HostDirectory (W : Type) where
  host : Host
  root : List String
  put : Host → W

/-- A store of files. Every call comes to an end. -/
class Workspace (W : Type) where
  /-- The contents of a file. -/
  read : String → WorkspaceM W Bytes
  /-- Creates or replaces a file and the directories above it. -/
  write : String → Bytes → WorkspaceM W Unit
  /-- Removes a file; a missing one is no failure. -/
  delete : String → WorkspaceM W Unit
  /-- What stands at a path, if anything does. -/
  stat : String → WorkspaceM W (Option Stat)
  /-- The entries of a directory by name. -/
  list : String → WorkspaceM W (List DirEntry)
  /-- The host directory that a guest can be given, where there is one. -/
  hostDirectory? : W → Option (HostDirectory W)
  /-- No walk that meets every directory once meets more of them. -/
  extent : W → Nat
  read_returns : ∀ path, Returns (read path)
  write_returns : ∀ path data, Returns (write path data)
  delete_returns : ∀ path, Returns (delete path)
  stat_returns : ∀ path, Returns (stat path)
  list_returns : ∀ path, Returns (list path)

namespace WorkspaceError

/-- A path in normal form. -/
def normalize (path : String) : Except WorkspaceError String :=
  match Path.normalize? path with
  | some p => .ok p
  | none => .error (.invalidPath path)

/-! ## Steps that end -/

variable {α β : Type} {x : Except WorkspaceError α} {f : α → Except WorkspaceError β}

theorem bind_ne_endless (hx : x ≠ .error .endless) (hf : ∀ a, f a ≠ .error .endless) :
    (x >>= f) ≠ .error .endless := by
  cases x with
  | error e => exact fun h => hx (congrArg Except.error (Except.error.inj h))
  | ok a => exact hf a

theorem normalize_ne_endless (path : String) : normalize path ≠ .error .endless := by
  unfold normalize
  split
  · nofun
  · nofun

end WorkspaceError

end Sandshell
