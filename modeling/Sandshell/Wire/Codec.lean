import Sandshell.Bundle.Basic
import Sandshell.Guest.Error
import Sandshell.Shell.Run
import Sandshell.Tool.Basic
import Sandshell.Wire.Decode

/-!
# Exchanged records

The exchanged form of each record: how it is written, and how it is read. Reading also takes other
spellings of some keys, leaves out what has a default, and takes streams as texts or as bytes.
-/

namespace Sandshell

open Wire

namespace Wire

/-- A natural number. -/
def ofNat (n : Nat) : Value := .integer n

/-- Bytes as a list of numbers. -/
def ofBytes (bytes : Bytes) : Value :=
  .list (bytes.map fun b => .integer b.toNat)

/-- A map of texts. -/
def ofEnvironment (env : Environment) : Value :=
  .record (env.toList.map fun (name, value) => (name, .text value))

/-- A stream as a text, or as a list of bytes. -/
def Decode.stream : Decoder Bytes
  | .text s => .ok (Bytes.ofString s)
  | .list items =>
    match items.mapM Decode.byte with
    | .ok bytes => .ok bytes
    | .error _ => .error (.noVariant "Repr")
  | _ => .error (.noVariant "Repr")

/-- A map of texts. -/
def Decode.environment : Decoder Environment :=
  Decode.map Decode.text

end Wire

namespace OutputLimits

/-- The exchanged form of ceilings. -/
def toWire (l : OutputLimits) : Value :=
  .record [("max_stderr_bytes", ofNat l.maxStderr), ("max_stdout_bytes", ofNat l.maxStdout)]

/-- Reads ceilings. -/
def ofWire : Decoder OutputLimits := fun v => do
  let slots ← Slots.read "OutputLimits"
    [.withDefault "max_stdout_bytes" Decode.size ["maxStdoutBytes"],
      .withDefault "max_stderr_bytes" Decode.size ["maxStderrBytes"]] v
  return {
    maxStdout := ← slots.getD "max_stdout_bytes" Decode.size ({} : OutputLimits).maxStdout
    maxStderr := ← slots.getD "max_stderr_bytes" Decode.size ({} : OutputLimits).maxStderr }

end OutputLimits

namespace ShellConfig

/-- The exchanged form of settings. -/
def toWire (c : ShellConfig) : Value :=
  .record [("hostname", .text c.hostname), ("limits", c.limits.toWire),
    ("max_substitution_depth", ofNat c.maxSubstitutionDepth), ("user", .text c.user)]

/-- Reads settings. -/
def ofWire : Decoder ShellConfig := fun v => do
  let slots ← Slots.read "ShellConfig"
    [.withDefault "limits" OutputLimits.ofWire [],
      .withDefault "max_substitution_depth" Decode.size ["maxSubstitutionDepth"],
      .withDefault "user" Decode.text [], .withDefault "hostname" Decode.text []] v
  let default : ShellConfig := {}
  return {
    limits := ← slots.getD "limits" OutputLimits.ofWire default.limits
    maxSubstitutionDepth :=
      ← slots.getD "max_substitution_depth" Decode.size default.maxSubstitutionDepth
    user := ← slots.getD "user" Decode.text default.user
    hostname := ← slots.getD "hostname" Decode.text default.hostname }

end ShellConfig

namespace EngineConfig

/-- The exchanged form of ceilings for guests. -/
def toWire (c : EngineConfig) : Value :=
  .record [("max_file_bytes", ofNat c.maxFile), ("max_memory_bytes", ofNat c.maxMemory)]

/-- Reads ceilings for guests. -/
def ofWire : Decoder EngineConfig := fun v => do
  let slots ← Slots.read "EngineConfig"
    [.withDefault "max_memory_bytes" Decode.word64 ["maxMemoryBytes"],
      .withDefault "max_file_bytes" Decode.word64 ["maxFileBytes"]] v
  return {
    maxMemory := ← slots.getD "max_memory_bytes" Decode.word64 ({} : EngineConfig).maxMemory
    maxFile := ← slots.getD "max_file_bytes" Decode.word64 ({} : EngineConfig).maxFile }

end EngineConfig

namespace CommandRequest

/-- The exchanged form of a request. -/
def toWire (r : CommandRequest) : Value :=
  .record [("argv", .list (r.argv.map .text)), ("cwd", .text r.cwd), ("env", ofEnvironment r.env),
    ("limits", r.limits.toWire), ("stdin", ofBytes r.stdin)]

/-- Reads a request. -/
def ofWire : Decoder CommandRequest := fun v => do
  let slots ← Slots.read "CommandRequest"
    [.of "argv" (Decode.list Decode.text) [], .of "cwd" Decode.text [],
      .of "env" Decode.environment [], .withDefault "stdin" (Decode.list Decode.byte) [],
      .withDefault "limits" OutputLimits.ofWire []] v
  return {
    argv := ← slots.get "argv" (Decode.list Decode.text)
    cwd := ← slots.get "cwd" Decode.text
    env := ← slots.get "env" Decode.environment
    stdin := ← slots.getD "stdin" (Decode.list Decode.byte) []
    limits := ← slots.getD "limits" OutputLimits.ofWire {} }

end CommandRequest

namespace CommandOutput

/-- The exchanged form of an output; bytes that are no text are lost. -/
def toWire (o : CommandOutput) : Value :=
  .record [("exit_code", .integer o.exitCode), ("stderr", .text o.stderr.lossyText),
    ("stdout", .text o.stdout.lossyText)]

/-- Reads an output. -/
def ofWire : Decoder CommandOutput := fun v => do
  let slots ← Slots.read "CommandOutput"
    [.withDefault "exit_code" Decode.exitCode ["exitCode"],
      .withDefault "stdout" Decode.stream [], .withDefault "stderr" Decode.stream []] v
  return {
    exitCode := ← slots.getD "exit_code" Decode.exitCode 0
    stdout := ← slots.getD "stdout" Decode.stream []
    stderr := ← slots.getD "stderr" Decode.stream [] }

end CommandOutput

namespace BundleCommand

/-- The exchanged form of a declared command. -/
def toWire (c : BundleCommand) : Value :=
  .record [("module_path", .text c.modulePath), ("name", .text c.name)]

/-- Reads a declared command. -/
def ofWire : Decoder BundleCommand := fun v => do
  let slots ← Slots.read "BundleCommand"
    [.of "name" Decode.text [], .of "module_path" Decode.text ["modulePath"]] v
  return {
    name := ← slots.get "name" Decode.text
    modulePath := ← slots.get "module_path" Decode.text }

end BundleCommand

namespace Bundle

/-- The exchanged form of a bundle. -/
def toWire (b : Bundle) : Value :=
  .record [("commands", .list (b.commands.map BundleCommand.toWire)), ("name", .text b.name),
    ("root", .text b.root), ("version", .text b.version)]

/-- Reads a bundle. -/
def ofWire : Decoder Bundle := fun v => do
  let slots ← Slots.read "InstalledBundle"
    [.of "name" Decode.text [], .of "version" Decode.text [], .of "root" Decode.text [],
      .withDefault "commands" (Decode.list BundleCommand.ofWire) []] v
  return {
    name := ← slots.get "name" Decode.text
    version := ← slots.get "version" Decode.text
    root := ← slots.get "root" Decode.text
    commands := ← slots.getD "commands" (Decode.list BundleCommand.ofWire) [] }

end Bundle

namespace ToolInput

/-- The exchanged form of arguments; what is absent is left out. -/
def toWire (i : ToolInput) : Value :=
  .record ([("command", .text i.command)]
    ++ (i.cwd.map fun cwd => ("cwd", .text cwd)).toList
    ++ (i.env.map fun env => ("env", ofEnvironment env)).toList)

/-- Reads arguments. -/
def ofWire : Decoder ToolInput := fun v => do
  let slots ← Slots.read "ShellToolInput"
    [.of "command" Decode.text ["script"], .withDefault "cwd" (Decode.optional Decode.text) [],
      .withDefault "env" (Decode.optional Decode.environment) []] v
  return {
    command := ← slots.get "command" Decode.text
    cwd := ← slots.getD "cwd" (Decode.optional Decode.text) none
    env := ← slots.getD "env" (Decode.optional Decode.environment) none }

end ToolInput

namespace ToolOutput

/-- The exchanged form of an answer. -/
def toWire (o : ToolOutput) : Value :=
  .record [("exit_code", .integer o.exitCode), ("output", .text o.output),
    ("stderr", .text o.stderr), ("stderr_truncated", .bool o.stderrTruncated),
    ("stdout", .text o.stdout), ("stdout_truncated", .bool o.stdoutTruncated)]

/-- Reads an answer. -/
def ofWire : Decoder ToolOutput := fun v => do
  let slots ← Slots.read "ShellToolOutput"
    [.of "exit_code" Decode.exitCode [], .of "stdout" Decode.text [], .of "stderr" Decode.text [],
      .of "stdout_truncated" Decode.bool [], .of "stderr_truncated" Decode.bool [],
      .of "output" Decode.text []] v
  return {
    exitCode := ← slots.get "exit_code" Decode.exitCode
    stdout := ← slots.get "stdout" Decode.text
    stderr := ← slots.get "stderr" Decode.text
    stdoutTruncated := ← slots.get "stdout_truncated" Decode.bool
    stderrTruncated := ← slots.get "stderr_truncated" Decode.bool
    output := ← slots.get "output" Decode.text }

end ToolOutput

namespace ExecutionResult

/-- The exchanged form of a result. -/
def toWire (r : ExecutionResult) : Value :=
  .record [("exit_code", .integer r.exitCode), ("stderr", ofBytes r.stderr),
    ("stderr_truncated", .bool r.stderrTruncated), ("stdout", ofBytes r.stdout),
    ("stdout_truncated", .bool r.stdoutTruncated)]

/-- Reads a result. -/
def ofWire : Decoder ExecutionResult := fun v => do
  let bytes := Decode.list Decode.byte
  let slots ← Slots.read "ExecutionResult"
    [.of "exit_code" Decode.exitCode [], .of "stdout" bytes [], .of "stderr" bytes [],
      .of "stdout_truncated" Decode.bool [], .of "stderr_truncated" Decode.bool []] v
  return {
    exitCode := ← slots.get "exit_code" Decode.exitCode
    stdout := ← slots.get "stdout" bytes
    stderr := ← slots.get "stderr" bytes
    stdoutTruncated := ← slots.get "stdout_truncated" Decode.bool
    stderrTruncated := ← slots.get "stderr_truncated" Decode.bool }

end ExecutionResult

namespace EntryKind

/-- The exchanged form of a kind. -/
def toWire : EntryKind → Value
  | .file => .text "file"
  | .directory => .text "directory"

/-- The kind with a name. -/
def named (name : String) : Except WireError EntryKind :=
  match name with
  | "file" => .ok .file
  | "directory" => .ok .directory
  | _ => .error (.unknownVariant name "\x60file\x60 or \x60directory\x60")

/-- Reads a kind: a name, or a record of the name alone with nothing in it. -/
def ofWire : Decoder EntryKind
  | .text name => named name
  | .record [(name, v)] => do
    let kind ← named name
    match v with
    | .null => return kind
    | v => Decode.refuse "unit" v
  | .record _ => .error (.invalidValue "map" "map with a single key")
  | v => Decode.refuse "string or map" v

end EntryKind

namespace Stat

/-- The exchanged form of what stands at a path. -/
def toWire (s : Stat) : Value :=
  .record [("size", ofNat s.size), ("type", s.kind.toWire)]

/-- Reads what stands at a path. -/
def ofWire : Decoder Stat := fun v => do
  let slots ← Slots.read "Stat" [.of "type" EntryKind.ofWire [], .of "size" Decode.word64 []] v
  return {
    kind := ← slots.get "type" EntryKind.ofWire
    size := ← slots.get "size" Decode.word64 }

end Stat

namespace DirEntry

/-- The exchanged form of an entry. -/
def toWire (e : DirEntry) : Value :=
  .record [("name", .text e.name), ("type", e.kind.toWire)]

/-- Reads an entry. -/
def ofWire : Decoder DirEntry := fun v => do
  let slots ← Slots.read "DirEntry" [.of "name" Decode.text [], .of "type" EntryKind.ofWire []] v
  return {
    name := ← slots.get "name" Decode.text
    kind := ← slots.get "type" EntryKind.ofWire }

end DirEntry

end Sandshell
