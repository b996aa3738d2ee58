import Sandshell.Script.Tree
import Sandshell.Shell.State

/-!
# Routing output

Redirections say where the two output streams of a command go. Once it has run, its output is
delivered: what goes to the same place is joined, the output stream first.
-/

namespace Sandshell

/-- Where a stream goes. -/
inductive Sink where
  | out
  | err
  | file (path : String) (mode : OpenMode)
deriving DecidableEq, Repr, Inhabited

/-- Where the streams of a command go, and the files that were opened for them, in order. -/
structure Routing where
  out : Sink := .out
  err : Sink := .err
  opened : List (String × OpenMode) := []
deriving DecidableEq, Repr, Inhabited

namespace Routing

/-- Sends a stream to a file. -/
def toFile (r : Routing) (stream : OutputStream) (mode : OpenMode) (path : String) : Routing :=
  let opened := r.opened ++ [(path, mode)]
  match stream with
  | .out => { r with out := .file path mode, opened }
  | .err => { r with err := .file path mode, opened }

/-- Sends the error stream to where the output stream goes now. -/
def joinErrors (r : Routing) : Routing :=
  { r with err := r.out }

end Routing

/-- What is to be written to a file. -/
structure FileOutput where
  path : String
  mode : OpenMode
  data : Bytes
deriving DecidableEq, Repr, Inhabited

/-- Adds data for a file; the first mode given for a path stays. -/
def FileOutput.add (path : String) (mode : OpenMode) (data : Bytes) :
    List FileOutput → List FileOutput
  | [] => [⟨path, mode, data⟩]
  | f :: rest =>
    if f.path = path then { f with data := f.data ++ data } :: rest
    else f :: add path mode data rest

/-- Delivered output: what is left on the streams and what goes to files. -/
structure Delivery where
  stdout : Bytes := []
  stderr : Bytes := []
  files : List FileOutput := []
deriving DecidableEq, Repr, Inhabited

namespace Delivery

/-- Delivers data to a sink. -/
def send (d : Delivery) (sink : Sink) (data : Bytes) : Delivery :=
  match sink with
  | .out => { d with stdout := d.stdout ++ data }
  | .err => { d with stderr := d.stderr ++ data }
  | .file path mode => { d with files := FileOutput.add path mode data d.files }

/-- Delivers the output of a command. Every opened file is written, be it with nothing. -/
def ofOutcome (r : Routing) (outcome : CommandOutcome) : Delivery :=
  let sent := (({} : Delivery).send r.out outcome.stdout).send r.err outcome.stderr
  r.opened.foldl (fun d (path, mode) => d.send (.file path mode) []) sent

variable {W : Type} [Workspace W]

/-- Writes a file, after its old contents where it is appended to. -/
def writeFile (f : FileOutput) : WorkspaceM W Unit := do
  match f.mode with
  | .truncate => Workspace.write f.path f.data
  | .append =>
    match ← observing (Workspace.read f.path) with
    | .ok old => Workspace.write f.path (old ++ f.data)
    | .error (.notFound _) => Workspace.write f.path f.data
    | .error e => throw e

/-- Writes the files in order. -/
def writeFiles (d : Delivery) : WorkspaceM W Unit :=
  d.files.forM writeFile

end Delivery

end Sandshell
