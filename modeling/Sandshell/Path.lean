import Sandshell.Text.Split

/-!
# Paths

A workspace path is text whose segments stand between slashes; the empty path is the root. Folding
the segments `.` and `..` is lexical: nothing is looked up.
-/

namespace Sandshell.Path

/-- The segments of a path, empty ones included. -/
def segments (path : String) : List String :=
  Text.split '/' path

/-- The path with the given segments. -/
def ofSegments (names : List String) : String :=
  "/".intercalate names

/-- A path can hold any character but NUL. -/
def hasNul (path : String) : Bool :=
  path.toList.contains '\x00'

/-- Starts at the root. -/
def isAbsolute (path : String) : Bool :=
  path.toList.head? = some '/'

/-- Walks on from `here`, going up at `..`; `none` above the root. -/
def follow? (here : List String) : List String → Option (List String)
  | [] => some here
  | name :: rest =>
    if name = "" ∨ name = "." then follow? here rest
    else if name = ".." then
      if here.isEmpty then none else follow? here.dropLast rest
    else follow? (here ++ [name]) rest

/-- Where `path` leads from `cwd`, or from the root after a leading slash; `none` if it leaves the
workspace or holds a NUL. -/
def resolve? (cwd path : String) : Option String :=
  if hasNul path then none
  else
    let start := if isAbsolute path then [] else (segments cwd).filter (· ≠ "")
    (follow? start (segments path)).map ofSegments

/-- Drops the empty and `.` segments; refuses a leading slash, a `..` and a NUL. -/
def normalize? (path : String) : Option String :=
  if hasNul path || isAbsolute path then none
  else
    let names := (segments path).filter fun name => name ≠ "" ∧ name ≠ "."
    if names.contains ".." then none else some (ofSegments names)

/-- The path of `name` inside `directory`. -/
def join (directory name : String) : String :=
  if directory = "" then name else directory ++ "/" ++ name

/-- Parent and last segment. -/
def split (path : String) : String × String :=
  (Text.splitLast? '/' path).getD ("", path)

/-- The directory that holds the last segment. -/
def parent (path : String) : String :=
  (split path).1

/-- The text of `path` below `directory`; the root has every path below it. -/
def below? (directory path : String) : Option String :=
  if directory = "" then some path
  else ((directory ++ "/").toList.isPrefixOf? path.toList).map String.ofList

/-- The proper ancestors of a path, nearest first, the root left out. -/
def ancestors (path : String) : List String :=
  let names := segments path
  ((List.range names.length).drop 1).reverse.map fun n => ofSegments (names.take n)

end Sandshell.Path
