import Sandshell.Guest.Errno
import Sandshell.Text.Utf8
import Sandshell.Workspace.Tree

/-!
# Files of a guest

A guest works on a tree of its own. Its calls are stricter than those of a workspace: nothing is
created above what a call names, and directories are made one by one. A file has no number of its
own; its inode number is the 64-bit FNV-1a hash of its path.
-/

namespace Sandshell

/-- The 64-bit FNV-1a hash of bytes. -/
def fnv1a (bytes : Bytes) : UInt64 :=
  bytes.foldl (fun hash b => (hash ^^^ b.toUInt64) * 0x100000001b3) 0xcbf29ce484222325

/-- The number of what stands at a path. -/
def inode (path : String) : UInt64 :=
  fnv1a (Bytes.ofString path)

/-- The number of a kind of entry. -/
def EntryKind.number : EntryKind → UInt8
  | .directory => 3
  | .file => 4

namespace Tree

/-- The kind of what stands at a path; a file hides a directory. -/
def kind? (t : Tree) (path : String) : Option EntryKind :=
  if t.files.contains path then some .file
  else if t.isDirectory path then some .directory
  else none

/-- Adds to the children of `directory` what a stored path of the given kind shows of it. -/
def addChild (directory : String) (kind : EntryKind)
    (children : Std.ExtTreeMap String EntryKind compare) (key : String) :
    Std.ExtTreeMap String EntryKind compare :=
  match Path.below? directory key with
  | none => children
  | some rest =>
    match Text.splitFirst? '/' rest with
    | some (name, _) => children.insert name .directory
    | none => if rest = "" then children else children.insertIfNew rest kind

/-- The children of a directory by name: what files show of it, and then recorded directories. -/
def children (t : Tree) (directory : String) : List DirEntry :=
  let fromFiles := t.files.keys.foldl (addChild directory .file) ∅
  let all := t.directories.toList.foldl (addChild directory .directory) fromFiles
  all.toList.map fun (name, kind) => ⟨name, kind⟩

/-- Creates an empty file, or empties one, in a directory that exists. -/
def createFile (t : Tree) (path : String) : Except Errno Tree :=
  let parent := Path.parent path
  if t.files.contains parent then .error .notdir
  else if !t.isDirectory parent then .error .noent
  else .ok { t with files := t.files.insert path [] }

/-- Makes a directory in a directory that exists. -/
def makeDirectory (t : Tree) (path : String) : Except Errno Tree :=
  let parent := Path.parent path
  -- the root is there even in a tree without entries
  if path = "" || (t.kind? path).isSome then .error .exist
  else if t.isDirectory parent then .ok { t with directories := t.directories.insert path }
  else .error (if t.files.contains parent then .notdir else .noent)

/-- Records the directories on the way from `here` along the given names. -/
def recordAlong (t : Tree) (here : String) : List String → Tree
  | [] => t
  | name :: rest =>
    let there := Path.join here name
    recordAlong { t with directories := t.directories.insert there } there rest

/-- Records a path and its ancestors as directories unless the path is one. -/
def ensureDirectory (t : Tree) (path : String) : Tree :=
  if t.isDirectory path then t else t.recordAlong "" (Path.segments path)

/-- Removes a file. -/
def removeFile (t : Tree) (path : String) : Except Errno Tree :=
  if t.files.contains path then .ok { t with files := t.files.erase path }
  else .error (if t.isDirectory path then .isdir else .noent)

/-- Replaces the contents of a file that exists. -/
def setFile (t : Tree) (path : String) (data : Bytes) : Tree :=
  if t.files.contains path then { t with files := t.files.insert path data } else t

/-- The size of a file, zero if there is none. -/
def fileSize (t : Tree) (path : String) : Nat :=
  (t.files.getD path []).length

end Tree

end Sandshell
