import Sandshell.Wire.Codec

/-!
# The shell as a tool

One call runs one script in a fresh state. Only malformed arguments, scripts that do not parse and
failures of the engine fail the call.
-/

namespace Sandshell

/-- Why a call fails. -/
inductive ToolError where
  | invalidInput (e : Wire.WireError)
  | shell (e : ShellError)
deriving DecidableEq, Repr, Inhabited

/-- The wording of a failed call. -/
def ToolError.message : ToolError → String
  | .invalidInput e => "invalid tool input: " ++ e.message
  | .shell e => e.message

namespace Tool

/-- The name of the tool. -/
def name : String := "shell"

/-- The definition of the tool, with the schema of its arguments. -/
def definition : Wire.Value :=
  .record [
    ("description", .text "Run a shell script in the sandboxed workspace"),
    ("name", .text name),
    ("parameters", .record [
      ("properties", .record [
        ("command", .record [
          ("description", .text "Script to execute"),
          ("type", .text "string")]),
        ("cwd", .record [
          ("description", .text "Working directory, relative to the workspace root"),
          ("type", .text "string")]),
        ("env", .record [
          ("additionalProperties", .record [("type", .text "string")]),
          ("description", .text "Environment variables to export"),
          ("type", .text "object")])]),
      ("required", .list [.text "command"]),
      ("type", .text "object")])]

/-- The answer that a result gives. -/
def answer (r : ExecutionResult) : ToolOutput :=
  let stdout := r.stdout.lossyText
  let stderr := r.stderr.lossyText
  ⟨r.exitCode, stdout, stderr, r.stdoutTruncated, r.stderrTruncated, stdout ++ stderr⟩

variable {W : Type} [Workspace W]

/-- The directory that a call starts in. -/
def startDirectory (cwd : Option String) : ShellM W String := do
  match resolvePath "" (cwd.getD "") with
  | .error e => throw e
  | .ok path =>
    match ← ShellM.onWorkspace (Workspace.stat path) with
    | some stat =>
      if stat.kind = .file then throw (.workspace (.notADirectory path))
      return path
    | none => throw (.workspace (.notFound path))

/-- Runs a call in a fresh state. -/
def call (sh : Shell W) (input : ToolInput) : ShellM W ToolOutput := do
  let cwd ← startDirectory input.cwd
  ShellM.modifyState fun _ => { env := input.env.getD ∅, cwd }
  return answer (← sh.execute input.command)

/-- Runs a call with exchanged arguments and gives the exchanged answer. -/
def callWire (sh : Shell W) (arguments : Wire.Value) : StateM W (Except ToolError Wire.Value) :=
  fun w =>
    match ToolInput.ofWire arguments with
    | .error e => (.error (.invalidInput e), w)
    | .ok input =>
      match call sh input ⟨w, {}⟩ with
      | (.error e, s) => (.error (.shell e), s.workspace)
      | (.ok output, s) => (.ok output.toWire, s.workspace)

end Tool

end Sandshell
