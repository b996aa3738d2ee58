import Sandshell.Guest.Engine
import Sandshell.Workspace.Host

/-!
# Running on a host directory

The working directory on the host is the guest's root, and what the guest does to files happens on
the host. What does it is an engine of the host's system; the one here does not show links to the
guest.
-/

namespace Sandshell.Mount

open scoped Arithmetic

/-- The text of a path below a directory of the host; a slash stands between the two in any case. -/
def locationText (root names : List String) : String :=
  "/" ++ Path.ofSegments (Host.withoutSlash root ++ names)

/-- The files and directories below a location. -/
def treeBelow (h : Host) (location : String) : Tree :=
  h.nodes.foldl
    (fun (t : Tree) key node =>
      match Path.below? location key, node with
      | some path, .file data => { t with files := t.files.insert path data }
      | some path, .directory => { t with directories := t.directories.insert path }
      | _, _ => t)
    Tree.empty

/-- The host after a tree at a location has become another one. -/
def settle (h : Host) (location : String) (before after : Tree) : Host :=
  let place (path : String) : String := Path.join location path
  let kept := before.files.foldl
    (fun nodes path _ => if after.files.contains path then nodes else nodes.erase (place path))
    h.nodes
  let made := after.directories.foldl
    (fun nodes path => nodes.insertIfNew (place path) .directory) kept
  ⟨after.files.foldl (fun nodes path data => nodes.insert (place path) (.file data)) made⟩

/-- A stream that is full has been cut, as far as anyone can tell. -/
def isFull (c : Capture) : Bool :=
  0 < c.limit && c.limit ≤ c.bytes.length

/-- Every fault is reported in the same way. -/
def ending (e : Ending) : Ending :=
  match e with
  | .trapped _ => .trapped backtrace
  | e => e

/-- Steps on the host; what they did before failing stays done. -/
abbrev HostM := ExceptT EngineError (StateM Host)

/-- An engine that runs a program that has been loaded on a directory of the host, given by its
location. -/
abbrev HostEngine := EngineConfig → Surroundings → (location : String) → GuestRequest →
  GuestProgram → HostM GuestResult

/-- Runs the program on the tree of the directory, and settles the tree on the host afterwards. -/
def treeEngine : HostEngine := fun config surroundings location r p => do
  let h ← get
  -- the tree is relative to the directory, which is its root
  let before := treeBelow h location
  let guest :=
    { r.guest surroundings { config with maxFile := 2 ^ (64 : Nat) } p before "" with
      mounted := true }
  let (last, after) :=
    Running.steps (p.memory = .asExpected) (p.bounds config.maxMemory) { guest } p.steps
  set (settle h location before after.guest.files)
  let stdout := after.guest.stdout
  let written := after.guest.stderr
  match Engine.settle (ending last) { written with truncated := false } with
  | .error e => throw e
  | .ok (exitCode, stderr) =>
    return {
      exitCode
      stdout := stdout.bytes
      stderr := stderr.bytes
      stdoutTruncated := isFull stdout
      stderrTruncated := isFull written || stderr.truncated
      files := none
      log := after.log }

/-- Runs a program on a directory of the host. Links on the way to it are followed. -/
def run (engine : HostEngine) (config : EngineConfig) (surroundings : Surroundings)
    (root : List String) (r : GuestRequest) : HostM GuestResult := do
  match r.source with
  | .snapshot _ => throw (.unsupported "snapshot filesystems need the snapshot engine")
  | .mount =>
    match r.directory with
    | .error e => throw e
    | .ok cwd =>
      let names := (Path.segments cwd).filter (· ≠ "")
      match (← get).find true (root ++ names) with
      | .ok (location, .directory) =>
        match r.module.load config.maxMemory with
        | .error e => throw e
        | .ok p => engine config surroundings location r p
      | _ => throw (.hostDirectory (locationText root names ++ ": not a directory"))

end Sandshell.Mount
