import Std.Data.ExtTreeMap
import Sandshell.Arithmetic
import Sandshell.Path
import Sandshell.Text.Utf8

/-!
# Host trees

A file system with regular files, directories and symbolic links, and the calls that a program makes
on it. Calls follow links in every component but the last, and in the last one too unless they say
otherwise; nothing keeps them below any directory. Locations are paths from the root of the host
without `.`, `..` or links in between. Paths are lists of segments; an empty one at the end stands
for a slash there, so that the segment in front of it is not the last one.
-/

namespace Sandshell

open scoped Arithmetic

/-- What stands at a location. -/
inductive Host.Node where
  | file (data : Bytes)
  | directory
  | link (target : String)
deriving DecidableEq, Repr, Inhabited

/-- A host tree: every location but the root, which is a directory. -/
structure Host where
  nodes : Std.ExtTreeMap String Host.Node compare

namespace Host

/-- Why a call on the host fails. -/
inductive Failure where
  | noEntry
  | alreadyExists
  | notDirectory
  | isDirectory
  | nameTooLong
  | tooManyLinks
deriving DecidableEq, Repr, Inhabited

/-- The host's own text for a failure. -/
def Failure.message : Failure → String
  | .noEntry => "No such file or directory (os error 2)"
  | .alreadyExists => "File exists (os error 17)"
  | .notDirectory => "Not a directory (os error 20)"
  | .isDirectory => "Is a directory (os error 21)"
  | .nameTooLong => "File name too long (os error 36)"
  | .tooManyLinks => "Too many levels of symbolic links (os error 40)"

/-- The longest name of an entry, in bytes. -/
def maxNameLength : Nat := 255

/-- The longest path, in bytes, its slashes included. -/
def maxPathLength : Nat := 4095

/-- How many links one path may lead through. -/
def maxLinks : Nat := 40

/-- The empty host. -/
def empty : Host := ⟨∅⟩

/-- The node at a location. -/
def node? (h : Host) (location : String) : Option Node :=
  if location = "" then some .directory else h.nodes[location]?

/-- Walks the segments `todo` from `here` and tells where they lead, whether or not anything stands
there; all but the last segment must stand for directories. `follow` tells whether a link in the
last place is followed. -/
def walk (h : Host) (follow : Bool) (links : Nat) (here : String) (todo : List String) :
    Except Failure String :=
  match todo with
  | [] => .ok here
  | name :: rest =>
    if name = "" ∨ name = "." then walk h follow links here rest
    else if name = ".." then walk h follow links (Path.parent here) rest
    else if maxNameLength < name.utf8ByteSize then .error .nameTooLong
    else
      let there := Path.join here name
      match h.node? there with
      | none => if rest.isEmpty then .ok there else .error .noEntry
      | some (.file _) => if rest.isEmpty then .ok there else .error .notDirectory
      | some .directory => walk h follow links there rest
      | some (.link target) =>
        if rest.isEmpty && !follow then .ok there
        else
          match links with
          | 0 => .error .tooManyLinks
          | n + 1 =>
            walk h follow n (if Path.isAbsolute target then "" else here)
              (Path.segments target ++ rest)
termination_by (links, todo.length)

/-- Where a path of segments leads. -/
def locate (h : Host) (follow : Bool) (path : List String) : Except Failure String :=
  if maxPathLength < (path.map fun name => name.utf8ByteSize + 1).sum then .error .nameTooLong
  else walk h follow maxLinks "" path

/-- The location of a node that a path leads to. -/
def find (h : Host) (follow : Bool) (path : List String) : Except Failure (String × Node) := do
  let location ← locate h follow path
  match h.node? location with
  | some node => return (location, node)
  | none => throw .noEntry

/-- The node at a path, a link in the last place not followed. -/
def linkStatus (h : Host) (path : List String) : Except Failure Node :=
  (·.2) <$> find h false path

/-- Leads to a directory, links followed. -/
def isDirectory (h : Host) (path : List String) : Bool :=
  match find h true path with
  | .ok (_, .directory) => true
  | _ => false

/-- The contents of a file. -/
def read (h : Host) (path : List String) : Except Failure Bytes := do
  match ← find h true path with
  | (_, .file data) => return data
  | _ => throw .isDirectory

/-- Creates or replaces a file in a directory that exists. -/
def write (h : Host) (path : List String) (data : Bytes) : Except Failure Host := do
  let location ← locate h true path
  match h.node? location with
  | some .directory => throw .isDirectory
  | _ => return ⟨h.nodes.insert location (.file data)⟩

/-- Makes one directory. -/
def makeDirectory (h : Host) (path : List String) : Except Failure Host := do
  let location ← locate h false path
  match h.node? location with
  | some _ => throw .alreadyExists
  | none => return ⟨h.nodes.insert location .directory⟩

/-- Makes a directory and the missing ones above it. Those made before a failure stay. -/
def makeDirectories (h : Host) (path : List String) : Except Failure Unit × Host :=
  let settle (h : Host) : Except Failure Unit × Host :=
    match makeDirectory h path with
    | .ok h' => (.ok (), h')
    | .error e => (if isDirectory h path then .ok () else .error e, h)
  match makeDirectory h path with
  | .error .noEntry =>
    if _nonempty : path = [] then (.error .noEntry, h)
    else
      match makeDirectories h path.dropLast with
      | (.ok (), h') => settle h'
      | failed => failed
  | _ => settle h
termination_by path.length
decreasing_by
  have := List.length_pos_iff.2 _nonempty
  simp only [List.length_dropLast]
  omega

/-- A path without slashes at its end. -/
def withoutSlash (path : List String) : List String :=
  (path.reverse.dropWhile (· = "")).reverse

/-- Removes a file or a link. A slash behind its name asks for a directory there. -/
def remove (h : Host) (path : List String) : Except Failure Host := do
  match ← find h false (withoutSlash path) with
  | (_, .directory) => throw .isDirectory
  | (location, _) =>
    if path.getLast? = some "" then throw .notDirectory
    return ⟨h.nodes.erase location⟩

/-- The entries of a directory by name. -/
def readDirectory (h : Host) (path : List String) : Except Failure (List (String × Node)) := do
  match ← find h true path with
  | (location, .directory) =>
    return h.nodes.toList.filterMap fun (key, node) =>
      if Path.parent key = location then some ((Path.split key).2, node) else none
  | _ => throw .notDirectory

/-- Makes a link. -/
def makeLink (h : Host) (path : List String) (target : String) : Except Failure Host := do
  let location ← locate h false path
  match h.node? location with
  | some _ => throw .alreadyExists
  | none => return ⟨h.nodes.insert location (.link target)⟩

end Host

end Sandshell
