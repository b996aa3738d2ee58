import Sandshell.Guest.Engine
import Sandshell.Workspace.Walk

/-!
# Snapshots of workspaces

All files of a workspace, and making a workspace hold other files. Writing back deletes before it
writes, and stops at the first call that fails.
-/

namespace Sandshell.Snapshot

variable {W : Type} [Workspace W]

/-- The file of an entry, or the directory to visit later. -/
def readEntry (directory : String) (entry : DirEntry) :
    WorkspaceM W (List (String × Bytes) × List String) := do
  let path := Path.join directory entry.name
  match entry.kind with
  | .directory => return ([], [path])
  | .file => return ([(path, ← Workspace.read path)], [])

/-- The files in a directory, and its subdirectories, the last of them first. -/
def visit (directory : String) : WorkspaceM W (List (String × Bytes) × List String) := do
  let found ← (← Workspace.list directory).mapM (readEntry directory)
  return (found.flatMap Prod.fst, (found.flatMap Prod.snd).reverse)

/-- All files of the workspace. -/
def take : WorkspaceM W FileSet := do
  let files ← Walk.below visit ""
  return files.foldl (fun m (path, data) => m.insert path data) ∅

/-- Deletes files. -/
def deleteAll : List String → WorkspaceM W Unit
  | [] => return
  | path :: rest => do
    Workspace.delete path
    deleteAll rest

/-- Writes files. -/
def writeAll : List (String × Bytes) → WorkspaceM W Unit
  | [] => return
  | (path, data) :: rest => do
    Workspace.write path data
    writeAll rest

/-- Deletes what is in `before` but not in `after` and writes all of `after`. Gives the numbers of
files written and deleted. -/
def writeBack (before : List String) (after : FileSet) : WorkspaceM W (Nat × Nat) := do
  let gone := before.filter fun path => !after.contains path
  -- what is gone makes room first, but the directories that it stood in stay
  deleteAll gone
  writeAll after.toList
  return (after.size, gone.length)

end Sandshell.Snapshot
