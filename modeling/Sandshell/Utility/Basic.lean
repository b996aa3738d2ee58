import Sandshell.Shell.State
import Sandshell.Time.Calendar

/-!
# What utilities look at

Utilities read the workspace and their input; they change neither the workspace nor the shell.
-/

namespace Sandshell

/-- What a utility may look at besides the workspace. -/
structure UtilityContext where
  config : ShellConfig
  cwd : String
  env : Environment
  stdin : Bytes
  now : Instant

namespace UtilityContext

variable {W : Type} [Workspace W]

/-- The contents of a file, or a diagnostic. -/
def read (ctx : UtilityContext) (name : String) : WorkspaceM W (Except String Bytes) := do
  match resolvePath ctx.cwd name with
  | .error e => return .error e.message
  | .ok path =>
    match ← observing (Workspace.read path) with
    | .ok data => return .ok data
    | .error (.notFound _) => return .error (name ++ ": No such file or directory")
    | .error (.isADirectory _) => return .error (name ++ ": Is a directory")
    | .error e => return .error (name ++ ": " ++ e.message)

end UtilityContext

/-- Arguments apart: the letters of those that start with a dash, in order, and the others. A dash
alone is one of the others. -/
def splitFlags : List String → List Char × List String
  | [] => ([], [])
  | argument :: rest =>
    let (flags, operands) := splitFlags rest
    match argument.toList with
    | '-' :: c :: letters => (c :: letters ++ flags, operands)
    | _ => (flags, argument :: operands)

end Sandshell
