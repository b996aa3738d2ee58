import Sandshell.Guest.Error
import Sandshell.Guest.Program

/-!
# The engine

Running a program on a snapshot of files. The request is checked first, then the module; what the
program does afterwards is a result, but for open flags without a meaning and panics.
-/

namespace Sandshell

/-- The files of a workspace by path. -/
abbrev FileSet := Std.ExtTreeMap String Bytes compare

/-- Where the files of a guest come from. -/
inductive FileSource where
  | snapshot (files : FileSet)
  | mount

/-- One run. -/
structure GuestRequest where
  module : GuestModule
  argv : List String := []
  env : Environment := ∅
  cwd : String := ""
  stdin : Bytes := []
  source : FileSource
  limits : OutputLimits := {}

/-- The result of a run. -/
structure GuestResult where
  exitCode : Int
  stdout : Bytes
  stderr : Bytes
  stdoutTruncated : Bool
  stderrTruncated : Bool
  /-- All files after the run, where it was on a snapshot. -/
  files : Option FileSet
  log : List LogEntry

/-- The exit code of a guest that failed by itself. -/
def trapExitCode : Int := 134

namespace GuestModule

/-- The program of a module that the engine can run, under a ceiling for memory. -/
def load (module : GuestModule) (ceiling : Nat) : Except EngineError GuestProgram := do
  match module with
  | .malformed => throw (.invalidModule "no module")
  | .program p =>
    -- the first check that fails is the one that is reported
    if !p.declaresMemory then throw (.invalidModule "memory size")
    if p.memory = .absent then throw (.missingExport "memory")
    if p.start = .absent then throw (.missingExport "_start")
    if p.mismatched then throw (.invalidModule "incompatible import type")
    if p.pages ≠ 0 && ceiling < p.pages * pageSize then throw (.invalidModule "memory minimum size")
    if p.start = .otherwise then throw (.missingExport "_start")
    return p

end GuestModule

namespace GuestRequest

/-- The normal form of the working directory. -/
def directory (r : GuestRequest) : Except EngineError String :=
  match Path.normalize? r.cwd with
  | some cwd => .ok cwd
  | none => .error (.invalidPath r.cwd)

/-- A file under the normal form of its path, which is not the root. -/
def normalFile (path : String) (data : Bytes) : Except EngineError (String × Bytes) :=
  match Path.normalize? path with
  | some normal => if normal = "" then .error (.invalidPath path) else .ok (normal, data)
  | none => .error (.invalidPath path)

/-- The files under the normal forms of their paths. -/
def normalFiles (files : FileSet) : Except EngineError FileSet := do
  let normal ← files.toList.mapM fun (path, data) => normalFile path data
  return normal.foldl (fun m (path, data) => m.insert path data) ∅

/-- The guest that a request starts, in a directory of a tree. -/
def guest (r : GuestRequest) (surroundings : Surroundings) (config : EngineConfig)
    (p : GuestProgram) (files : Tree) (cwd : String) : Guest where
  surroundings
  args := r.argv
  env := r.env.toList.map fun (name, value) => name ++ "=" ++ value
  memory := .zeroed (p.pages * pageSize)
  stdin := r.stdin
  stdout := .empty r.limits.maxStdout
  stderr := .empty r.limits.maxStderr
  files := files.ensureDirectory cwd
  descriptors := .ofRoot cwd
  maxFile := config.maxFile

end GuestRequest

namespace Engine

/-- Exit code and error stream at the end of a run. -/
def settle (ending : Ending) (stderr : Capture) : Except EngineError (Int × Capture) :=
  match ending with
  | .returned => .ok (0, stderr)
  | .exited code => .ok (code, stderr)
  | .trapped message => .ok (trapExitCode, stderr.write (Bytes.ofString (message ++ "\n")))
  | .malformedFlags flags => .error (.invalidOpenFlags flags)
  | .panicked => .error .panicked

/-- Runs the program of a request on a snapshot of files, up to its end. -/
def play (config : EngineConfig) (surroundings : Surroundings) (r : GuestRequest) :
    Except EngineError (Ending × Running) := do
  match r.source with
  | .mount => throw (.unsupported "host directory mounts need a host runner")
  | .snapshot files =>
    let cwd ← r.directory
    let files ← GuestRequest.normalFiles files
    let p ← r.module.load config.maxMemory
    let guest := r.guest surroundings config p ⟨files, ∅⟩ cwd
    return Running.steps (p.memory = .asExpected) (p.bounds config.maxMemory) { guest } p.steps

/-- What a run on a snapshot leaves. -/
def result (ending : Ending) (after : Running) : Except EngineError GuestResult := do
  let (exitCode, stderr) ← settle ending after.guest.stderr
  let stdout := after.guest.stdout
  return {
    exitCode
    stdout := stdout.bytes
    stderr := stderr.bytes
    stdoutTruncated := stdout.truncated
    stderrTruncated := stderr.truncated
    files := some after.guest.files.files
    log := after.log }

/-- Runs a program on a snapshot of files. -/
def run (config : EngineConfig) (surroundings : Surroundings) (r : GuestRequest) :
    Except EngineError GuestResult := do
  let (ending, after) ← play config surroundings r
  result ending after

end Engine

end Sandshell
