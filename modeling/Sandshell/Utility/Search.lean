import Sandshell.Utility.Basic
import Sandshell.Utility.Search.Lines
import Sandshell.Workspace.Walk

/-!
# Searching

`grep` searches its input or the named files; `rg` searches directories too and leaves out what is
hidden.
-/

namespace Sandshell.Search

/-- A way of searching. -/
structure Mode where
  name : String
  /-- Searches below the working directory if nothing is named and there is no input. -/
  recursive : Bool
deriving DecidableEq, Repr, Inhabited

/-- Plain searching. -/
def grep : Mode := ⟨"grep", false⟩

/-- Searching below directories, hidden entries left out. -/
def rg : Mode := ⟨"rg", true⟩

/-- A file to search: how it is shown, and its path. -/
structure Target where
  display : String
  path : String
deriving DecidableEq, Repr, Inhabited

/-- What a search of several files has given so far. -/
structure Report where
  out : String := ""
  err : String := ""
  matched : Bool := false
  total : Nat := 0
deriving DecidableEq, Repr, Inhabited

/-- One report after another. -/
def Report.append (first second : Report) : Report where
  out := first.out ++ second.out
  err := first.err ++ second.err
  matched := first.matched || second.matched
  total := first.total + second.total

/-- The exit code of a report. -/
def Report.exitCode (r : Report) : Int :=
  if r.matched then 0 else if r.err ≠ "" then 2 else 1

/-- The outcome of a report; a silent one has no output. -/
def Report.outcome (o : Options) (r : Report) : CommandOutcome where
  exitCode := r.exitCode
  stdout := Bytes.ofString (if o.silent then "" else r.out)
  stderr := Bytes.ofString r.err

/-- The report on the input. -/
def inputReport (o : Options) (isMatch : String → Bool) (text : String) : Report where
  out :=
    printLines o isMatch none text
      ++ (if o.count then toString (counted o isMatch text) ++ "\n" else "")
  matched := found o isMatch text

/-- The report on the text of a file. -/
def fileReport (o : Options) (isMatch : String → Bool) (filename : Option String)
    (display text : String) : Report :=
  let matched := found o isMatch text
  if o.count then
    let n := counted o isMatch text
    match filename with
    | some f => { out := f ++ ":" ++ toString n ++ "\n", matched }
    | none => { matched, total := n }
  else
    { out :=
        printLines o isMatch filename text
          ++ (if o.filesOnly && matched then display ++ "\n" else "")
      matched }

variable {W : Type} [Workspace W]

/-- The files in a directory and its subdirectories, each with how it is shown. -/
def visit (skipHidden : Bool) (directory : Target) :
    WorkspaceM W (List Target × List Target) := do
  let entries ← Workspace.list directory.path
  let shown := entries.filter fun e => !(skipHidden && e.name.toList.head? = some '.')
  let target (e : DirEntry) : Target :=
    ⟨Path.join directory.display e.name, Path.join directory.path e.name⟩
  return ((shown.filter (·.kind = .file)).map target,
    (shown.filter (·.kind = .directory)).map target)

/-- How the directory of an operand is shown before the names in it. -/
def shownPrefix (operand : String) : String :=
  if operand = "." || operand = "./" then "" else Text.trimRight '/' operand

/-- The files that an operand stands for, or a diagnostic. -/
def targets (mode : Mode) (recursive : Bool) (cwd operand : String) :
    WorkspaceM W (Except String (List Target)) := do
  match Path.resolve? cwd operand with
  | none => return .error (operand ++ ": path escapes the workspace")
  | some path =>
    match ← Workspace.stat path with
    | none => return .error (operand ++ ": No such file or directory")
    | some stat =>
      if stat.kind = .file then return .ok [⟨operand, path⟩]
      else if !recursive then return .error (operand ++ ": Is a directory")
      else return .ok (← Walk.below (visit mode.recursive) ⟨shownPrefix operand, path⟩)

/-- Searches one file. -/
def searchFile (mode : Mode) (o : Options) (isMatch : String → Bool) (showName : Bool)
    (target : Target) : WorkspaceM W Report := do
  match ← observing (Workspace.read target.path) with
  | .ok data =>
    let filename := if showName then some target.display else none
    return fileReport o isMatch filename target.display data.lossyText
  | .error e =>
    if o.silent then return {}
    return { err := mode.name ++ ": " ++ target.display ++ ": " ++ e.message ++ "\n" }

/-- Searches the files that operands stand for. -/
def searchFiles (mode : Mode) (o : Options) (isMatch : String → Bool) (cwd : String) :
    WorkspaceM W Report := do
  let recursive := o.recursive || mode.recursive
  let operands := if o.files.isEmpty then ["."] else o.files
  let collected ← operands.mapM (targets mode recursive cwd)
  let refused := collected.filterMap fun
    | .error e => some (mode.name ++ ": " ++ e ++ "\n")
    | .ok _ => none
  let files := collected.flatMap fun
    | .error _ => []
    | .ok found => found
  let showName := mode.recursive || 1 < files.length || o.withFilename || recursive
  let reports ← files.mapM (searchFile mode o isMatch showName)
  let report := reports.foldl Report.append { err := String.join refused }
  return { report with
    out := report.out ++ (if o.count && !showName then toString report.total ++ "\n" else "") }

/-- Searches with a given way to match lines. -/
def searchWith (mode : Mode) (o : Options) (isMatch : String → Bool) (ctx : UtilityContext) :
    WorkspaceM W Report := do
  if o.files.isEmpty && !(mode.recursive && ctx.stdin.isEmpty) then
    return inputReport o isMatch ctx.stdin.lossyText
  else searchFiles mode o isMatch ctx.cwd

/-- Searches as arguments say. -/
def outcome (mode : Mode) (ctx : UtilityContext) (args : List String) :
    WorkspaceM W CommandOutcome := do
  match Options.parse args with
  | .error e => return .fail 2 (mode.name ++ ": " ++ e.message)
  | .ok o =>
    match Regex.read o.expression with
    | .error e => return .fail 2 (mode.name ++ ": invalid regex: " ++ e.message)
    | .ok regex => return (← searchWith mode o regex.isMatch ctx).outcome o

end Sandshell.Search
