import Sandshell.Shell.State
import Sandshell.Text.Number

/-!
# Variables and parameters

The builtins that list and change variables and positional parameters.
-/

namespace Sandshell.Builtin

/-- One line of a listing, or of diagnostics, for each item. -/
def unlines (lines : List String) : String :=
  String.join (lines.map (· ++ "\n"))

/-- The exported variables as the commands that export them. -/
def exportListing (env : Environment) : String :=
  unlines (env.toList.map fun (name, value) => "export " ++ name ++ "=\"" ++ value ++ "\"")

/-- Exports one name, with a value if an equals sign follows it; `none` if it is no name. -/
def exportOne? (s : ShellState) (argument : String) : Option ShellState :=
  let (name, given?) :=
    match Text.splitFirst? '=' argument with
    | some (name, value) => (name, some value)
    | none => (argument, none)
  if Word.isName name then
    let env :=
      match given?.or s.vars[name]? with
      | some value => s.env.insert name value
      | none => s.env
    some { s with env, vars := s.vars.erase name }
  else none

/-- Exports names in order; gives the arguments that are no names. -/
def exportAll (s : ShellState) : List String → List String × ShellState
  | [] => ([], s)
  | argument :: rest =>
    match exportOne? s argument with
    | some s' => exportAll s' rest
    | none =>
      let (refused, s') := exportAll s rest
      (argument :: refused, s')

/-- Lists the exported variables or exports names. -/
def exportVariables (args : List String) (s : ShellState) : CommandOutcome × ShellState :=
  match args.filter (· ≠ "-p") with
  | [] => (.ok (exportListing s.env), s)
  | names =>
    let (refused, s') := exportAll s names
    (.ofDiagnostics 1 ""
      (unlines (refused.map fun a => "export: \x60" ++ a ++ "': not a valid identifier")), s')

/-- Starts with a character. -/
def startsWith (c : Char) (s : String) : Bool :=
  s.toList.head? = some c

/-- Forgets variables, whether exported or not. -/
def unsetVariables (args : List String) (s : ShellState) : CommandOutcome × ShellState :=
  let names := args.filter (!startsWith '-' ·)
  (.code 0, names.foldl
    (fun s name => { s with vars := s.vars.erase name, env := s.env.erase name }) s)

/-- All variables as assignments; the shell's own hide the exported ones. -/
def variableListing (s : ShellState) : String :=
  let merged := s.vars.foldl (fun m name value => m.insert name value) s.env
  unlines (merged.toList.map fun (name, value) => name ++ "='" ++ value ++ "'")

/-- Lists the variables or sets the positional parameters. -/
def setPositional (args : List String) (s : ShellState) : CommandOutcome × ShellState :=
  match args with
  | [] => (.ok (variableListing s), s)
  | first :: rest =>
    if first = "--" then (.code 0, { s with positional := rest })
    else if startsWith '-' first || startsWith '+' first then
      (.fail 2 ("set: " ++ first ++ ": unsupported option"), s)
    else (.code 0, { s with positional := args })

/-- Drops positional parameters from the front. -/
def shiftPositional (args : List String) (s : ShellState) : CommandOutcome × ShellState :=
  match args with
  | [] => drop 1
  | argument :: _ =>
    match Text.natural? argument with
    | some count => drop count
    | none => (.fail 1 ("shift: " ++ argument ++ ": numeric argument required"), s)
where
  /-- Drops `count` parameters if there are as many. -/
  drop (count : Nat) : CommandOutcome × ShellState :=
    if s.positional.length < count then (.fail 1 "shift: shift count out of range", s)
    else (.code 0, { s with positional := s.positional.drop count })

end Sandshell.Builtin
