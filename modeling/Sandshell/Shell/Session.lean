import Sandshell.Shell.Expansion

/-!
# Sessions

A session is a workspace with the state of a shell on it. Steps of a session can fail; what they
did before stays done.
-/

namespace Sandshell

/-- A workspace and the state of a shell on it. -/
structure Session (W : Type) where
  workspace : W
  state : ShellState

/-- A step of a shell. -/
abbrev ShellM (W : Type) := ExceptT ShellError (StateM (Session W))

namespace ShellM

variable {W α : Type}

/-- The state of the shell. -/
def state : ShellM W ShellState :=
  return (← get).state

/-- Changes the state of the shell. -/
def modifyState (f : ShellState → ShellState) : ShellM W Unit :=
  modify fun s => { s with state := f s.state }

/-- A step on the workspace, its failures worded by `fail`. -/
def onWorkspaceOr {ε : Type} (fail : ε → ShellError) (step : ExceptT ε (StateM W) α) : ShellM W α :=
  fun s =>
    match step s.workspace with
    | (.ok a, workspace) => (.ok a, { s with workspace })
    | (.error e, workspace) => (.error (fail e), { s with workspace })

/-- A step on the workspace. -/
def onWorkspace (step : WorkspaceM W α) : ShellM W α :=
  onWorkspaceOr .workspace step

/-- A step whose changes to the state of the shell are undone. -/
def isolated (step : ShellM W α) : ShellM W α :=
  fun s =>
    let (result, after) := step s
    (result, { after with state := s.state })

/-- The result of a step, be it a failure. -/
def attempt (step : ShellM W α) : ShellM W (Except ShellError α) :=
  fun s =>
    let (result, after) := step s
    (.ok result, after)

/-- An expansion, with the diagnostics of the scripts that it ran. -/
def expanding (step : ExpandM W α) : ShellM W (α × Bytes) :=
  fun s =>
    match step ⟨s.workspace, []⟩ with
    | (.ok a, e) => (.ok (a, e.diagnostics), { s with workspace := e.workspace })
    | (.error error, e) => (.error error, { s with workspace := e.workspace })

end ShellM

end Sandshell
