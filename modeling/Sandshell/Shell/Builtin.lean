import Sandshell.Shell.Builtin.Condition
import Sandshell.Shell.Builtin.Variables
import Sandshell.Shell.Lookup
import Sandshell.Shell.Session

/-!
# Builtins

The commands that see and change the state of the shell. A misuse is an outcome with a diagnostic;
only failures of the workspace are failures of the step.
-/

namespace Sandshell.Builtin

variable {W : Type} [Workspace W]

/-- The state in another working directory; an exported `PWD` follows it. -/
def enter (s : ShellState) (path : String) : ShellState :=
  { s with
    cwd := path
    env := if s.env.contains "PWD" then s.env.insert "PWD" ("/" ++ path) else s.env }

/-- Changes the working directory; without an argument to the root, and `PWD` stays as it is. -/
def changeDirectory (args : List String) : ShellM W CommandOutcome := do
  match args with
  | [] =>
    ShellM.modifyState fun s => { s with cwd := "" }
    return .code 0
  | [target] =>
    match resolvePath (← ShellM.state).cwd target with
    | .error e => return .fail 1 ("cd: " ++ e.message)
    | .ok path =>
      if path ≠ "" then
        match ← ShellM.onWorkspace (Workspace.stat path) with
        | none => return .fail 1 ("cd: " ++ target ++ ": No such file or directory")
        | some stat =>
          if stat.kind = .file then return .fail 1 ("cd: " ++ target ++ ": Not a directory")
      ShellM.modifyState (enter · path)
      return .code 0
  | _ => return .fail 1 "cd: too many arguments"

/-- Tells which names can be run. -/
def findCommands (delegated : String → Bool) (args : List String) : CommandOutcome :=
  match args with
  | "-v" :: names =>
    let found := names.filter fun name => (Provider.find? delegated name).isSome
    { exitCode := if found.length = names.length then 0 else 1
      stdout := Bytes.ofString (unlines found) }
  | _ => .fail 2 "command: only \x60command -v NAME' is supported"

/-- Runs a change of the state that needs no workspace. -/
def updating (f : ShellState → CommandOutcome × ShellState) : ShellM W CommandOutcome := do
  let (outcome, state) := f (← ShellM.state)
  ShellM.modifyState fun _ => state
  return outcome

/-- Tests arguments. -/
def testArguments (args : List String) : ShellM W CommandOutcome := do
  let state ← ShellM.state
  ShellM.onWorkspace (Condition.outcome state.cwd args)

/-- Runs a builtin. -/
def run (delegated : String → Bool) (args : List String) : Builtin → ShellM W CommandOutcome
  | .colon | .succeed => return .code 0
  | .fail => return .code 1
  | .cd => changeDirectory args
  | .pwd => return .ok ("/" ++ (← ShellM.state).cwd ++ "\n")
  | .exportNames => updating (exportVariables args)
  | .unsetNames => updating (unsetVariables args)
  | .setParameters => updating (setPositional args)
  | .shiftParameters => updating (shiftPositional args)
  | .test => testArguments args
  | .bracket =>
    if args.getLast? = some "]" then testArguments args.dropLast
    else return .fail 2 "[: missing \x60]'"
  | .command => return findCommands delegated args

end Sandshell.Builtin
