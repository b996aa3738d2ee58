import Sandshell.Script.Token
import Sandshell.Shell.Delegate

/-!
# State and failures of the shell

What a script can see and change besides the workspace, and the ways in which one of its stages can
fail.
-/

namespace Sandshell

/-- Settings of a shell. -/
structure ShellConfig where
  limits : OutputLimits := {}
  maxSubstitutionDepth : Nat := 32
  user : String := "agent"
  hostname : String := "sandbox"
deriving DecidableEq, Repr, Inhabited

/-- Variables, directory, parameters and last exit code. -/
structure ShellState where
  /-- Exported variables. -/
  env : Environment := ∅
  /-- Variables of the shell alone. -/
  vars : Environment := ∅
  /-- The working directory; the root is empty. -/
  cwd : String := ""
  positional : List String := []
  lastExitCode : Int := 0

namespace ShellState

/-- The value of a variable; the shell's own hide the exported ones. -/
def lookup (s : ShellState) (name : String) : Option String :=
  (s.vars[name]?).or s.env[name]?

/-- Gives a variable a value where it lives: an exported one stays exported. -/
def assign (s : ShellState) (name value : String) : ShellState :=
  if s.env.contains name then { s with env := s.env.insert name value }
  else { s with vars := s.vars.insert name value }

end ShellState

/-- Why a word cannot be expanded. -/
inductive ExpansionError where
  | unterminatedSubstitution
  | badSubstitution (body : String)
  | depthExceeded (limit : Nat)
  | script (message : String)
deriving DecidableEq, Repr, Inhabited

/-- The wording of a failed expansion. -/
def ExpansionError.message : ExpansionError → String
  | .unterminatedSubstitution => "unterminated command substitution"
  | .badSubstitution body => "$\x7b" ++ body ++ "\x7d: bad substitution"
  | .depthExceeded limit =>
    "command substitution nested deeper than " ++ toString limit ++ " levels"
  | .script message => "command substitution: " ++ message

/-- Why a stage of a pipeline, or the whole script, fails. -/
inductive ShellError where
  | parse (e : ParseError)
  | expansion (e : ExpansionError)
  | pathEscape (path : String)
  | redirection (what : String)
  | workspace (e : WorkspaceError)
  | delegate (e : DelegateError)
  | engine (e : EngineError)
  | commandNotFound (name : String)
deriving DecidableEq, Repr, Inhabited

namespace ShellError

/-- The wording of a failure. -/
def message : ShellError → String
  | .parse e => e.message
  | .expansion e => e.message
  | .pathEscape path => path ++ ": path escapes the workspace"
  | .redirection what => what
  | .workspace e => e.message
  | .delegate e => e.message
  | .engine e => e.message
  | .commandNotFound name => name ++ ": command not found"

/-- Aborts the whole script instead of one stage. -/
def isFatal : ShellError → Bool
  | .parse _ | .engine _ | .workspace .endless => true
  | _ => false

/-- The failure of a delegated command. -/
def ofDelegate : DelegateError → ShellError
  | .engine e => .engine e
  | .workspace .endless => .workspace .endless
  | e => .delegate e

end ShellError

/-- Where a path given to a command leads. -/
def resolvePath (cwd path : String) : Except ShellError String :=
  match Path.resolve? cwd path with
  | some p => .ok p
  | none => .error (.pathEscape (String.join (path.toList.map fun c =>
      if c = '\x00' then "\\0" else String.singleton c)))

/-- The result of a command, a pipeline or a script. -/
structure CommandOutcome where
  exitCode : Int := 0
  stdout : Bytes := []
  stderr : Bytes := []
deriving DecidableEq, Repr, Inhabited

namespace CommandOutcome

/-- An exit code and no output. -/
def code (exitCode : Int) : CommandOutcome := { exitCode }

/-- Success with some text. -/
def ok (text : String) : CommandOutcome := { stdout := Bytes.ofString text }

/-- Failure with a diagnostic line. -/
def fail (exitCode : Int) (message : String) : CommandOutcome :=
  { exitCode
    stderr := Bytes.ofString
      (if message.toList.getLast? = some '\n' then message else message ++ "\n") }

/-- Success, or failure if there are diagnostics. -/
def ofDiagnostics (exitCode : Int) (stdout stderr : String) : CommandOutcome :=
  { exitCode := if stderr = "" then 0 else exitCode
    stdout := Bytes.ofString stdout
    stderr := Bytes.ofString stderr }

end CommandOutcome

end Sandshell
