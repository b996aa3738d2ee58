import Sandshell.Shell.Delegate

/-!
# Arguments and answers of the shell tool
-/

namespace Sandshell

/-- The arguments of a call. -/
structure ToolInput where
  command : String
  cwd : Option String := none
  env : Option Environment := none

/-- The answer to a call. -/
structure ToolOutput where
  exitCode : Int
  stdout : String
  stderr : String
  stdoutTruncated : Bool
  stderrTruncated : Bool
  /-- Output followed by error output. -/
  output : String
deriving DecidableEq, Repr, Inhabited

end Sandshell
