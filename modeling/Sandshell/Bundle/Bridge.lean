import Sandshell.Bundle.Basic
import Sandshell.Bundle.Snapshot
import Sandshell.Guest.Mount

/-!
# Bundle commands as delegated commands

A command of a bundle is run on a snapshot of the workspace, and what it left is written back; or,
where the workspace has a host directory and mounting is on, on that directory. A failure of the
engine leaves the workspace alone.
-/

namespace Sandshell

/-- Installed bundles with their modules. -/
structure Bridge where
  registry : Registry
  /-- Modules by their keys. -/
  modules : Std.ExtTreeMap String GuestModule compare
  config : EngineConfig := {}
  /-- Runs on the host directory of a workspace that has one. -/
  mount : Option Mount.HostEngine := none
  surroundings : Surroundings := {}

namespace Bridge

/-- The module of a command. -/
def module (b : Bridge) (name : String) : Except DelegateError GuestModule :=
  match b.registry.find? name with
  | none => .error (.unknownCommand name)
  | some (bundle, command) =>
    let key := bundle.moduleKey command
    match b.modules[key]? with
    | some module => .ok module
    | none => .error (.moduleNotFound key)

/-- The run that a request asks for; `PWD` names the working directory. -/
def guestRequest (module : GuestModule) (r : CommandRequest) (source : FileSource) :
    GuestRequest where
  module
  argv := r.argv
  env := r.env.insert "PWD" ("/" ++ r.cwd)
  cwd := r.cwd
  stdin := r.stdin
  source
  limits := r.limits

/-- What a result gives to the shell. -/
def output (r : GuestResult) : CommandOutput := ⟨r.exitCode, r.stdout, r.stderr⟩

variable {W : Type} [Workspace W]

/-- A step on the workspace, its failures passed on. -/
def onWorkspace {α : Type} (step : WorkspaceM W α) : ExceptT DelegateError (StateM W) α :=
  fun w =>
    let (result, w) := step w
    (result.mapError .workspace, w)

/-- Runs on the host directory. -/
def runMounted (b : Bridge) (engine : Mount.HostEngine) (module : GuestModule)
    (d : HostDirectory W) (r : CommandRequest) : ExceptT DelegateError (StateM W) CommandOutput := do
  let (result, host) :=
    Mount.run engine b.config b.surroundings d.root (guestRequest module r .mount) d.host
  set (d.put host)
  match result with
  | .error e => throw (.engine e)
  | .ok result => return output result

/-- Runs on a snapshot and writes back what is left. -/
def runOnSnapshot (b : Bridge) (module : GuestModule) (r : CommandRequest) :
    ExceptT DelegateError (StateM W) CommandOutput := do
  let before ← onWorkspace Snapshot.take
  match Engine.run b.config b.surroundings (guestRequest module r (.snapshot before)) with
  | .error e => throw (.engine e)
  | .ok result =>
    match result.files with
    | some after =>
      let _ ← onWorkspace (Snapshot.writeBack before.keys after)
      return output result
    | none => return output result

/-- Runs a command. -/
def run (b : Bridge) (r : CommandRequest) : ExceptT DelegateError (StateM W) CommandOutput := do
  match r.argv with
  | [] => throw (.failed "empty command")
  | name :: _ =>
    match b.module name with
    | .error e => throw e
    | .ok module =>
      match Workspace.hostDirectory? (← get), b.mount with
      | some d, some engine => b.runMounted engine module d r
      | _, _ => b.runOnSnapshot module r

/-- The bridge as the delegate of a shell. -/
def delegate (b : Bridge) : Delegate W where
  provides name := (b.registry.find? name).isSome
  run := b.run

end Bridge

end Sandshell
