import Sandshell.Script.Parse
import Sandshell.Shell.Builtin
import Sandshell.Shell.Routing
import Sandshell.Utility.Run

/-!
# Running scripts

Sequences run from left to right, and the stages of a pipeline one after the other, each reading
what the one before it wrote. A stage that fails ends its pipeline with exit code 127; only a
failure that is fatal ends the script.

The interpreter recurses on the tree of the script. Scripts inside substitutions are text until
they run, so running them is an argument here; `Shell.substitute` ties the knot by recursion on the
number of substitutions that may still be nested.
-/

namespace Sandshell

/-- What a shell runs with. -/
structure Shell (W : Type) where
  config : ShellConfig := {}
  delegate? : Option (Delegate W) := none
  now : Instant := ⟨0⟩

/-- The command names that the delegate provides. -/
def Shell.delegated {W : Type} (sh : Shell W) (name : String) : Bool :=
  sh.delegate?.any (·.provides name)

namespace CommandOutcome

/-- One outcome after another: the output joined, the exit code of the second. -/
def followedBy (first second : CommandOutcome) : CommandOutcome where
  exitCode := second.exitCode
  stdout := first.stdout ++ second.stdout
  stderr := first.stderr ++ second.stderr

/-- The outcome with diagnostics before its own. -/
def withDiagnostics (diagnostics : Bytes) (outcome : CommandOutcome) : CommandOutcome :=
  { outcome with stderr := diagnostics ++ outcome.stderr }

end CommandOutcome

namespace Run

variable {W : Type} [Workspace W]

/-- What the text of a substitution stands for, seen from a state. -/
abbrev Substitute (W : Type) := ShellState → String → ExpandM W String

/-- Expands with the current state. -/
def expand {α : Type} (substitute : Substitute W) (step : ExpandContext W → ExpandM W α) :
    ShellM W (α × Bytes) := do
  let state ← ShellM.state
  ShellM.expanding (step ⟨state, substitute state⟩)

/-! ## Simple commands -/

/-- The assignments at the start of a command, and the words after them. -/
def splitAssignments : List Word → List (String × Word) × List Word
  | [] => ([], [])
  | w :: rest =>
    match w.assignment? with
    | some assignment =>
      let (assignments, words) := splitAssignments rest
      (assignment :: assignments, words)
    | none => ([], w :: rest)

/-- An environment with further values. -/
def withValues (env : Environment) (values : List (String × String)) : Environment :=
  values.foldl (fun env (name, value) => env.insert name value) env

/-- Hands a command to the delegate. -/
def delegate (d : Delegate W) (request : CommandRequest) : ShellM W CommandOutcome := do
  let output ← ShellM.onWorkspaceOr .ofDelegate (d.run request)
  return ⟨output.exitCode, output.stdout, output.stderr⟩

/-- Runs the command with a name; `values` are in its environment alone. -/
def named (sh : Shell W) (values : List (String × String)) (name : String) (args : List String)
    (stdin : Bytes) : ShellM W CommandOutcome := do
  let state ← ShellM.state
  let env := withValues state.env values
  match Provider.find? sh.delegated name, sh.delegate? with
  | some (.builtin b), _ => b.run sh.delegated args
  | some .delegate, some d =>
    delegate d { argv := name :: args, cwd := state.cwd, env, stdin, limits := sh.config.limits }
  | some (.utility u), _ =>
    ShellM.onWorkspace
      (u.run { config := sh.config, cwd := state.cwd, env, stdin, now := sh.now } args)
  | _, _ => throw (.commandNotFound name)

/-- Runs words: assignments alone change variables, and stand in the environment of a command. -/
def simple (sh : Shell W) (substitute : Substitute W) (words : List Word) (stdin : Bytes) :
    ShellM W CommandOutcome := do
  let (assignments, words) := splitAssignments words
  let ((values, argv), diagnostics) ← expand substitute fun ctx => do
    let values ← assignments.mapM fun (name, value) => return (name, ← Expand.toText ctx value)
    return (values, ← Expand.words ctx words)
  match argv with
  | [] =>
    ShellM.modifyState fun s => values.foldl (fun s (name, value) => s.assign name value) s
    return { stderr := diagnostics }
  | name :: args => return (← named sh values name args stdin).withDiagnostics diagnostics

/-! ## Redirections -/

/-- The path that the target of a redirection stands for, with diagnostics. -/
def target (substitute : Substitute W) (w : Word) : ShellM W (String × Bytes) := do
  let (fields, diagnostics) ← expand substitute fun ctx => Expand.word ctx w
  match fields with
  | [path] =>
    if path = "" then throw (.redirection ": No such file or directory")
    match resolvePath (← ShellM.state).cwd path with
    | .ok resolved => return (resolved, diagnostics)
    | .error e => throw e
  | _ => throw (.redirection (w.literal ++ ": ambiguous redirect"))

/-- The contents of the file that input comes from. -/
def readInput (path : String) : ShellM W Bytes :=
  ShellM.onWorkspaceOr
    (fun e =>
      match e with
      | .notFound _ | .isADirectory _ => .redirection e.message
      | e => .workspace e)
    (Workspace.read path)

/-- The target of the last redirection of the input. -/
def inputTarget? : List Redirection → Option Word
  | [] => none
  | .input w :: rest => (inputTarget? rest).or (some w)
  | _ :: rest => inputTarget? rest

/-- The input of a command, with diagnostics. Only the first stage of a pipeline reads from a
file. -/
def input (substitute : Substitute W) (redirections : List Redirection) (first : Bool)
    (stdin : Bytes) : ShellM W (Bytes × Bytes) := do
  match inputTarget? redirections with
  | some w =>
    if first then
      let (path, diagnostics) ← target substitute w
      return (← readInput path, diagnostics)
    else return (stdin, [])
  | none => return (stdin, [])

/-- Where redirections send output, with diagnostics. -/
def routing (substitute : Substitute W) (r : Routing) :
    List Redirection → ShellM W (Routing × Bytes)
  | [] => return (r, [])
  | .input _ :: rest => routing substitute r rest
  | .errorsToOutput :: rest => routing substitute r.joinErrors rest
  | .output stream mode w :: rest => do
    let (path, diagnostics) ← target substitute w
    let (r, more) ← routing substitute (r.toFile stream mode path) rest
    return (r, diagnostics ++ more)

/-- Runs a command between its redirections. -/
def redirected (substitute : Substitute W) (redirections : List Redirection) (first : Bool)
    (stdin : Bytes) (body : Bytes → ShellM W CommandOutcome) : ShellM W CommandOutcome := do
  let (stdin, inputDiagnostics) ← input substitute redirections first stdin
  let (r, outputDiagnostics) ← routing substitute {} redirections
  let outcome ← body stdin
  let delivery :=
    Delivery.ofOutcome r (outcome.withDiagnostics (inputDiagnostics ++ outputDiagnostics))
  ShellM.onWorkspace delivery.writeFiles
  return ⟨outcome.exitCode, delivery.stdout, delivery.stderr⟩

/-! ## Scripts -/

/-- The outcome of nothing: the last exit code. -/
def idle : ShellM W CommandOutcome :=
  return .code (← ShellM.state).lastExitCode

/-- Runs a pipeline and records its exit code. -/
def recorded (pipeline : ShellM W CommandOutcome) : ShellM W CommandOutcome := do
  let outcome ← pipeline
  ShellM.modifyState fun s => { s with lastExitCode := outcome.exitCode }
  return outcome

mutual

/-- Runs a command. -/
def command (sh : Shell W) (substitute : Substitute W) (first : Bool) (stdin : Bytes) :
    Command → ShellM W CommandOutcome
  | .simple words redirections =>
    redirected substitute redirections first stdin (simple sh substitute words)
  | .group body redirections =>
    redirected substitute redirections first stdin fun stdin =>
      ShellM.isolated (script sh substitute stdin body)

/-- Runs the stages of a pipeline, the first of which reads `stdin`. -/
def pipeline (sh : Shell W) (substitute : Substitute W) (first : Bool) (stdin : Bytes) :
    List Command → ShellM W CommandOutcome
  | [] => return { stdout := stdin }
  | stage :: rest => do
    match ← ShellM.attempt (command sh substitute first stdin stage) with
    | .error e =>
      if e.isFatal then throw e
      return { exitCode := 127, stderr := Bytes.ofString (e.message ++ "\n") }
    | .ok outcome =>
      let last ← pipeline sh substitute false outcome.stdout rest
      return { last with
        exitCode := if rest.isEmpty then outcome.exitCode else last.exitCode
        stderr := outcome.stderr ++ last.stderr }

/-- Runs the guarded pipelines of a sequence. -/
def guarded (sh : Shell W) (substitute : Substitute W) :
    List (Connector × List Command) → ShellM W CommandOutcome
  | [] => idle
  | (connector, stages) :: rest => do
    if connector.admits (← ShellM.state).lastExitCode then
      let outcome ← recorded (pipeline sh substitute true [] stages)
      return outcome.followedBy (← guarded sh substitute rest)
    else guarded sh substitute rest

/-- Runs a sequence. -/
def sequence (sh : Shell W) (substitute : Substitute W) (stdin : Bytes) :
    Sequence → ShellM W CommandOutcome
  | .chain head tail => do
    let outcome ← recorded (pipeline sh substitute true stdin head)
    return outcome.followedBy (← guarded sh substitute tail)

/-- Runs the sequences of a script; only the first one reads `stdin`. -/
def script (sh : Shell W) (substitute : Substitute W) (stdin : Bytes) :
    List Sequence → ShellM W CommandOutcome
  | [] => idle
  | first :: rest => do
    let outcome ← sequence sh substitute stdin first
    return outcome.followedBy (← script sh substitute [] rest)

end

end Run

namespace Shell

variable {W : Type} [Workspace W]

/-- Without the line feed at its end. -/
def withoutLastLineFeed (s : String) : String :=
  match s.toList.reverse with
  | '\n' :: before => String.ofList before.reverse
  | _ => s

/-- The text that a substitution stands for: the output of its script, run on a copy of the state,
where `depth` substitutions may still be nested. Its error output is left with the diagnostics. -/
def substitute (sh : Shell W) : (depth : Nat) → Run.Substitute W
  | 0, _, _ => throw (.expansion (.depthExceeded sh.config.maxSubstitutionDepth))
  | depth + 1, state, text =>
    match Script.parse text with
    | .error e => throw (.expansion (.script e.message))
    | .ok script => fun e =>
      match Run.script sh (substitute sh depth) [] script ⟨e.workspace, state⟩ with
      | (.error error, s) => (.error error, { e with workspace := s.workspace })
      | (.ok outcome, s) =>
        (.ok (withoutLastLineFeed outcome.stdout.lossyText),
          ⟨s.workspace, e.diagnostics ++ outcome.stderr⟩)

/-- Runs a script that has been read. -/
def runScript (sh : Shell W) (script : Script) : ShellM W CommandOutcome :=
  Run.script sh (sh.substitute sh.config.maxSubstitutionDepth) [] script

end Shell

/-- The captured result of a script. -/
structure ExecutionResult where
  exitCode : Int
  stdout : Bytes
  stderr : Bytes
  stdoutTruncated : Bool
  stderrTruncated : Bool
deriving DecidableEq, Repr, Inhabited

/-- The result that an outcome leaves under ceilings. -/
def ExecutionResult.ofOutcome (limits : OutputLimits) (outcome : CommandOutcome) :
    ExecutionResult :=
  let out := Capture.ofBytes limits.maxStdout outcome.stdout
  let err := Capture.ofBytes limits.maxStderr outcome.stderr
  ⟨outcome.exitCode, out.bytes, err.bytes, out.truncated, err.truncated⟩

/-- Reads a script and runs it. -/
def Shell.execute {W : Type} [Workspace W] (sh : Shell W) (text : String) :
    ShellM W ExecutionResult := do
  match Script.parse text with
  | .error e => throw (.parse e)
  | .ok script => return .ofOutcome sh.config.limits (← sh.runScript script)

end Sandshell
