import Sandshell.Workspace.Basic

/-!
# Host directories as workspaces

A workspace below a directory of a host tree. Before each call every component of the path is
probed, and a path through a link is refused, so that no call leaves the directory.
-/

namespace Sandshell

/-- A directory of a host tree. -/
structure Rooted where
  host : Host
  root : List String

namespace Rooted

/-- The failure of a host call on `path` as one of the workspace. -/
def explain (path : String) : Host.Failure → WorkspaceError
  | .noEntry => .notFound path
  | .notDirectory => .notADirectory path
  | .isDirectory => .isADirectory path
  | e => .io e.message

/-- No existing component of `names` below `here` is a link; nothing exists below a missing one. -/
def linkFree (h : Host) (here : List String) : List String → Bool
  | [] => true
  | name :: rest =>
    match h.linkStatus (here ++ [name]) with
    | .ok (.link _) => false
    | .ok _ => linkFree h (here ++ [name]) rest
    | .error _ => true

/-- The normal form of a path, and its place on the host unless a link stands in its way. -/
def hostPath (w : Rooted) (path : String) : Except WorkspaceError (String × Option (List String)) := do
  let path ← WorkspaceError.normalize path
  let names := (Path.segments path).filter (· ≠ "")
  return (path, if linkFree w.host w.root names then some (w.root ++ names) else none)

/-- The normal form of a path and its place on the host. -/
def contained (w : Rooted) (path : String) : Except WorkspaceError (String × List String) := do
  match ← w.hostPath path with
  | (path, some place) => return (path, place)
  | (path, none) => throw (.invalidPath path)

/-- The contents of a file. -/
def read (w : Rooted) (path : String) : Except WorkspaceError Bytes := do
  let (path, place) ← w.contained path
  match w.host.linkStatus place with
  | .ok .directory => throw (.isADirectory path)
  | .ok _ => (w.host.read place).mapError (explain path)
  | .error e => throw (explain path e)

/-- Creates or replaces a file and the directories above it. -/
def write (path : String) (data : Bytes) : WorkspaceM Rooted Unit :=
  fun w =>
    match w.contained path with
    | .error e => (.error e, w)
    | .ok (path, place) =>
      if path = "" then (.error (.isADirectory path), w)
      else
        match w.host.makeDirectories place.dropLast with
        | (.error e, host) => (.error (explain path e), { w with host })
        | (.ok (), host) =>
          match host.write place data with
          | .ok host' => (.ok (), { w with host := host' })
          | .error e => (.error (explain path e), { w with host })

/-- Removes a file; a missing one is no failure. -/
def delete (w : Rooted) (path : String) : Except WorkspaceError Rooted := do
  let (path, place) ← w.contained path
  match w.host.remove place with
  | .ok host => return { w with host }
  | .error .noEntry => return w
  | .error e => throw (explain path e)

/-- What stands at a path; nothing does behind a link. -/
def stat (w : Rooted) (path : String) : Except WorkspaceError (Option Stat) := do
  match ← w.hostPath path with
  | (_, none) => return none
  | (path, some place) =>
    match w.host.linkStatus place with
    | .ok .directory => return some ⟨.directory, 0⟩
    | .ok (.file data) => return some ⟨.file, data.length⟩
    | .ok (.link target) => return some ⟨.file, target.utf8ByteSize⟩
    | .error .noEntry => return none
    | .error e => throw (explain path e)

/-- The entries of a directory by name, links left out. -/
def list (w : Rooted) (path : String) : Except WorkspaceError (List DirEntry) := do
  let (path, place) ← w.contained path
  let entries ← (w.host.readDirectory place).mapError (explain path)
  return entries.filterMap fun (name, node) =>
    match node with
    | .file _ => some ⟨name, .file⟩
    | .directory => some ⟨name, .directory⟩
    | .link _ => none

/-- A question to the workspace as a step that leaves it alone. -/
def ask {α : Type} (question : Rooted → Except WorkspaceError α) : WorkspaceM Rooted α :=
  fun w => (question w, w)

/-! ## Calls that end -/

section

open WorkspaceError (bind_ne_endless normalize_ne_endless)

variable {α : Type} (w : Rooted) (path : String) (data : Bytes)

theorem explain_ne_endless (e : Host.Failure) : explain path e ≠ .endless := by
  cases e <;> nofun

theorem error_explain_ne_endless (e : Host.Failure) :
    (.error (explain path e) : Except WorkspaceError α) ≠ .error .endless :=
  fun h => explain_ne_endless path e (Except.error.inj h)

theorem mapError_explain_ne_endless (x : Except Host.Failure α) :
    x.mapError (explain path) ≠ .error .endless := by
  cases x with
  | error e => exact error_explain_ne_endless path e
  | ok a => nofun

theorem hostPath_ne_endless : w.hostPath path ≠ .error .endless :=
  bind_ne_endless (normalize_ne_endless path) nofun

theorem contained_ne_endless : w.contained path ≠ .error .endless := by
  refine bind_ne_endless (w.hostPath_ne_endless path) ?_
  rintro ⟨p, _ | place⟩ <;> nofun

theorem read_ne_endless : w.read path ≠ .error .endless := by
  refine bind_ne_endless (w.contained_ne_endless path) fun (p, place) => ?_
  dsimp only
  split
  · nofun
  · exact mapError_explain_ne_endless p _
  · exact error_explain_ne_endless p _

theorem delete_ne_endless : w.delete path ≠ .error .endless := by
  refine bind_ne_endless (w.contained_ne_endless path) fun (p, place) => ?_
  dsimp only
  split
  · nofun
  · nofun
  · exact error_explain_ne_endless p _

theorem stat_ne_endless : w.stat path ≠ .error .endless := by
  refine bind_ne_endless (w.hostPath_ne_endless path) ?_
  rintro ⟨p, _ | place⟩
  · nofun
  · dsimp only
    split
    · nofun
    · nofun
    · nofun
    · nofun
    · exact error_explain_ne_endless p _

theorem list_ne_endless : w.list path ≠ .error .endless := by
  refine bind_ne_endless (w.contained_ne_endless path) fun (p, place) => ?_
  exact bind_ne_endless (mapError_explain_ne_endless p _) nofun

theorem write_returns : Returns (write path data) := by
  intro w hendless
  unfold write at hendless
  split at hendless
  · next e heq =>
    obtain rfl := Except.error.inj hendless
    exact w.contained_ne_endless path heq
  · next p place _ =>
    split at hendless
    · cases hendless
    · split at hendless
      · exact error_explain_ne_endless p _ hendless
      · split at hendless
        · cases hendless
        · exact error_explain_ne_endless p _ hendless

theorem delete_returns : Returns fun w =>
    match delete w path with
    | .ok w' => (.ok (), w')
    | .error e => (.error e, w) := by
  intro w hendless
  dsimp only at hendless
  split at hendless
  · cases hendless
  · next heq =>
    obtain rfl := Except.error.inj hendless
    exact w.delete_ne_endless path heq

end

instance : Workspace Rooted where
  read path := ask (·.read path)
  write := write
  delete path := fun w =>
    match w.delete path with
    | .ok w' => (.ok (), w')
    | .error e => (.error e, w)
  stat path := ask (·.stat path)
  list path := ask (·.list path)
  hostDirectory? w := some ⟨w.host, w.root, fun host => { w with host }⟩
  extent w := 1 + w.host.nodes.size
  read_returns path w := w.read_ne_endless path
  write_returns := write_returns
  delete_returns := delete_returns
  stat_returns path w := w.stat_ne_endless path
  list_returns path w := w.list_ne_endless path

/-- The workspace rooted at a directory of the host. -/
def open? (host : Host) (root : List String) : Option Rooted :=
  if host.isDirectory root then some ⟨host, root⟩ else none

/-- The regular files below a location of the host, by their paths from it; links are not followed. -/
def filesBelow (host : Host) (root : String) : List (String × Bytes) :=
  host.nodes.toList.filterMap fun (key, node) =>
    match Path.below? root key, node with
    | some path, .file data => some (path, data)
    | _, _ => none

end Rooted

end Sandshell
