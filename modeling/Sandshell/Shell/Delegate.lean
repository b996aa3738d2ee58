import Std.Data.ExtTreeMap
import Sandshell.Guest.Error
import Sandshell.Output
import Sandshell.Workspace.Basic

/-!
# Delegated commands

Commands that the shell does not implement itself are handed to a delegate, which may change the
workspace while it runs them.
-/

namespace Sandshell

/-- Environment variables by name. -/
abbrev Environment := Std.ExtTreeMap String String compare

/-- One command handed to a delegate. -/
structure CommandRequest where
  argv : List String
  cwd : String
  env : Environment
  stdin : Bytes := []
  limits : OutputLimits := {}

/-- The result of a delegated command. -/
structure CommandOutput where
  exitCode : Int := 0
  stdout : Bytes := []
  stderr : Bytes := []
deriving DecidableEq, Repr, Inhabited

/-- Why a delegated command fails. -/
inductive DelegateError where
  | unknownCommand (name : String)
  | moduleNotFound (key : String)
  | engine (e : EngineError)
  | workspace (e : WorkspaceError)
  | failed (what : String)
deriving DecidableEq, Repr, Inhabited

/-- The wording of a failed delegation. -/
def DelegateError.message : DelegateError → String
  | .unknownCommand name => name ++ ": unknown command"
  | .moduleNotFound key => key ++ ": module not found"
  | .engine e => e.message
  | .workspace e => e.message
  | .failed what => what

/-- Runs commands for a shell over the workspace type `W`. -/
structure Delegate (W : Type) where
  /-- Whether the delegate provides a name. -/
  provides : String → Bool
  /-- Runs one command to its end. -/
  run : CommandRequest → ExceptT DelegateError (StateM W) CommandOutput

end Sandshell
