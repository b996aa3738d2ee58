import Std.Data.ExtTreeSet
import Sandshell.Workspace.Basic

/-!
# In-memory trees

Files by path, and the directories that are known to exist on their own; every other directory is
implied by a path below it.
-/

namespace Sandshell

open scoped Arithmetic

/-- A workspace held in memory. -/
structure Tree where
  files : Std.ExtTreeMap String Bytes compare
  directories : Std.ExtTreeSet String compare

namespace Tree

/-- The tree without entries. -/
def empty : Tree := ⟨∅, ∅⟩

/-- The tree of the given files under the given names, which are not checked. -/
def ofFiles (files : List (String × Bytes)) : Tree :=
  ⟨files.foldl (fun m (path, data) => m.insert path data) ∅, ∅⟩

/-- Every path that is stored, of files first. -/
def keys (t : Tree) : List String :=
  t.files.keys ++ t.directories.toList

/-- Whether one of the paths, which stand in order, lies below `path`. The first one from `path` with
a slash on tells: those below stand there, one after another. -/
def leadsBelow (path : String) (keys : List String) : Bool :=
  let start := path ++ "/"
  (keys.find? fun key => (compare start key).isLE).any fun key => start.toList.isPrefixOf key.toList

/-- Stands for a directory: the root, a recorded directory, or one with a path below it. -/
def isDirectory (t : Tree) (path : String) : Bool :=
  path = "" || t.directories.contains path
    || leadsBelow path t.files.keys || leadsBelow path t.directories.toList

/-- The nearest proper ancestor that is a file. -/
def blockingFile? (t : Tree) (path : String) : Option String :=
  (Path.ancestors path).find? t.files.contains

/-- Records a directory. -/
def createDir (t : Tree) (path : String) : Except WorkspaceError Tree := do
  let path ← WorkspaceError.normalize path
  if t.files.contains path then throw (.notADirectory path)
  if let some file := t.blockingFile? path then throw (.notADirectory file)
  return { t with directories := t.directories.insert path }

/-- The contents of a file. -/
def read (t : Tree) (path : String) : Except WorkspaceError Bytes := do
  let path ← WorkspaceError.normalize path
  match t.files[path]? with
  | some data => return data
  | none => if t.isDirectory path then throw (.isADirectory path) else throw (.notFound path)

/-- Creates or replaces a file. -/
def write (t : Tree) (path : String) (data : Bytes) : Except WorkspaceError Tree := do
  let path ← WorkspaceError.normalize path
  if t.isDirectory path then throw (.isADirectory path)
  if let some file := t.blockingFile? path then throw (.notADirectory file)
  return { t with files := t.files.insert path data }

/-- Removes a file; its directory stays when it was the last one in it. -/
def delete (t : Tree) (path : String) : Except WorkspaceError Tree := do
  let path ← WorkspaceError.normalize path
  if !t.files.contains path && t.isDirectory path then throw (.isADirectory path)
  -- a missing file is no failure, and its directory is recorded all the same
  let rest : Tree := { t with files := t.files.erase path }
  let parent := Path.parent path
  if rest.isDirectory parent then return rest
  return { rest with directories := rest.directories.insert parent }

/-- What stands at a path. -/
def stat (t : Tree) (path : String) : Except WorkspaceError (Option Stat) := do
  let path ← WorkspaceError.normalize path
  match t.files[path]? with
  | some data => return some ⟨.file, data.length⟩
  | none => return if t.isDirectory path then some ⟨.directory, 0⟩ else none

/-- Adds to the entries of `directory` what a stored path shows of it: its first segment below the
directory, which is a directory if more segments follow. -/
def addEntry (t : Tree) (directory : String) (entries : Std.ExtTreeMap String EntryKind compare)
    (key : String) : Std.ExtTreeMap String EntryKind compare :=
  match Path.below? directory key with
  | none => entries
  | some rest =>
    match Text.splitFirst? '/' rest with
    | some (name, _) => entries.insert name .directory
    | none =>
      -- a path that ends in a slash shows nothing of its own
      if rest = "" then entries
      else entries.insertIfNew rest (if t.files.contains key then .file else .directory)

/-- What stored paths show of a directory, by name. -/
def entries (t : Tree) (directory : String) : List DirEntry :=
  (t.keys.foldl (t.addEntry directory) ∅).toList.map fun (name, kind) => ⟨name, kind⟩

/-- The entries of a directory by name. -/
def list (t : Tree) (path : String) : Except WorkspaceError (List DirEntry) := do
  let path ← WorkspaceError.normalize path
  if t.files.contains path then throw (.notADirectory path)
  if !t.isDirectory path then throw (.notFound path)
  return t.entries path

/-- Every directory but the root is spelled by the first segments of a stored path. -/
def extent (t : Tree) : Nat :=
  1 + (t.keys.map fun key => (Path.segments key).length).sum

/-- A question to the tree as a step that leaves it alone. -/
def ask {α : Type} (question : Tree → Except WorkspaceError α) : WorkspaceM Tree α :=
  fun t => (question t, t)

/-- A change of the tree as a step; a failing change leaves it alone. -/
def change (update : Tree → Except WorkspaceError Tree) : WorkspaceM Tree Unit :=
  fun t =>
    match update t with
    | .ok t' => (.ok (), t')
    | .error e => (.error e, t)

/-! ## Calls that end -/

section

open WorkspaceError (bind_ne_endless normalize_ne_endless)

variable (t : Tree) (path : String) (data : Bytes)

theorem read_ne_endless : t.read path ≠ .error .endless := by
  refine bind_ne_endless (normalize_ne_endless path) fun p => ?_
  cases t.files[p]? with
  | some data => nofun
  | none => cases t.isDirectory p <;> nofun

theorem write_ne_endless : t.write path data ≠ .error .endless := by
  refine bind_ne_endless (normalize_ne_endless path) fun p => ?_
  cases t.isDirectory p with
  | true => nofun
  | false => cases t.blockingFile? p <;> nofun

theorem delete_ne_endless : t.delete path ≠ .error .endless := by
  refine bind_ne_endless (normalize_ne_endless path) fun p => ?_
  cases !t.files.contains p && t.isDirectory p with
  | true => nofun
  | false =>
    show (if Tree.isDirectory _ (Path.parent p) then pure _ else pure _) ≠ _
    split <;> nofun

theorem stat_ne_endless : t.stat path ≠ .error .endless := by
  refine bind_ne_endless (normalize_ne_endless path) fun p => ?_
  cases t.files[p]? <;> nofun

theorem list_ne_endless : t.list path ≠ .error .endless := by
  refine bind_ne_endless (normalize_ne_endless path) fun p => ?_
  cases t.files.contains p with
  | true => nofun
  | false => cases t.isDirectory p <;> nofun

variable {t}

theorem change_returns {update : Tree → Except WorkspaceError Tree}
    (h : ∀ t, update t ≠ .error .endless) : Returns (change update) := by
  intro t hendless
  unfold change at hendless
  split at hendless
  · cases hendless
  · next heq =>
    cases hendless
    exact h t heq

end

instance : Workspace Tree where
  read path := ask (·.read path)
  write path data := change (·.write path data)
  delete path := change (·.delete path)
  stat path := ask (·.stat path)
  list path := ask (·.list path)
  hostDirectory? _ := none
  extent := extent
  read_returns path t := t.read_ne_endless path
  write_returns path data := change_returns fun t => t.write_ne_endless path data
  delete_returns path := change_returns fun t => t.delete_ne_endless path
  stat_returns path t := t.stat_ne_endless path
  list_returns path t := t.list_ne_endless path

end Tree

end Sandshell
