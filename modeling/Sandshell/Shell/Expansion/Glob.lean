import Sandshell.Pattern.Wildcard
import Sandshell.Workspace.Basic

/-!
# Matching file names

A pattern is matched against the workspace segment by segment. Segments without a star move
lexically; a segment with one moves to each child whose name matches.
-/

namespace Sandshell.Glob

variable {W : Type} [Workspace W]

/-- A place reached so far: how the pattern spells it, and its path. -/
structure Place where
  spelling : String
  path : String
deriving DecidableEq, Repr

/-- The spelling of `name` inside a place. -/
def joinSpelling (spelling name : String) : String :=
  if spelling = "" || spelling.toList.getLast? = some '/' then spelling ++ name
  else spelling ++ "/" ++ name

/-- Moves by a segment without a star; `none` above the root. -/
def step? (name : String) (place : Place) : Option Place :=
  let spelling := joinSpelling place.spelling name
  if name = "." then some ⟨spelling, place.path⟩
  else if name = ".." then
    if place.path = "" then none else some ⟨spelling, Path.parent place.path⟩
  else some ⟨spelling, Path.join place.path name⟩

/-- The children of a place that a segment matches; only the last segment may lead to a file. -/
def children (segment : List Glyph) (last : Bool) (place : Place) : StateM W (List Place) := do
  match ← (Workspace.list place.path).run with
  | .error _ => return []
  | .ok entries =>
    return entries.filterMap fun entry =>
      if Wildcard.matches? segment entry.name && (last || entry.kind = .directory) then
        some ⟨joinSpelling place.spelling entry.name, Path.join place.path entry.name⟩
      else none

/-- Moves from all places by one segment. -/
def advance (segment : List Glyph) (last : Bool) (places : List Place) : StateM W (List Place) :=
  if !segment.contains .star then return places.filterMap (step? (Wildcard.text segment))
  else if !Wildcard.isValid segment then return []
  else return (← places.mapM (children segment last)).flatten

/-- Moves from all places by the segments in order. -/
def walk (places : List Place) : List (List Glyph) → StateM W (List Place)
  | [] => return places
  | segment :: rest => do
    if places.isEmpty then return []
    walk (← advance segment rest.isEmpty places) rest

/-- Something stands at the place. -/
def exists? (place : Place) : StateM W Bool := do
  match ← (Workspace.stat place.path).run with
  | .ok (some _) => return true
  | _ => return false

/-- The sorted spellings of what a pattern matches, seen from `cwd`. -/
def expand (cwd : String) (pattern : List Glyph) : StateM W (List String) := do
  let absolute := pattern.head? = some (.char '/')
  let start : Place := if absolute then ⟨"/", ""⟩ else ⟨"", cwd⟩
  match (Wildcard.segments pattern).filter (!·.isEmpty) with
  | [] => return []
  | segments =>
    let places ← walk [start] segments
    let found ← places.filterM exists?
    return (found.map (·.spelling)).mergeSort (· ≤ ·)

end Sandshell.Glob
