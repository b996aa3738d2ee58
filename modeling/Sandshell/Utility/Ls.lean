import Sandshell.Text.Number
import Sandshell.Utility.Basic

/-!
# Listing directories

Operands that are files come first, then each directory with its entries.
-/

namespace Sandshell.Ls

/-- What to list, and how. -/
structure Options where
  /-- Hidden entries, the directory itself and its parent too. -/
  all : Bool := false
  /-- Kind and size too. -/
  long : Bool := false
deriving DecidableEq, Repr, Inhabited

/-- The options that letters spell, or the first letter that is none. -/
def Options.ofFlags (flags : List Char) : Except Char Options :=
  match flags.find? fun c => !("aAl1".toList.contains c) with
  | some c => .error c
  | none => .ok { all := flags.contains 'a' || flags.contains 'A', long := flags.contains 'l' }

/-- The line of an entry. -/
def line (o : Options) (name : String) (kind : EntryKind) (size : Nat) : String :=
  if o.long then
    let mode :=
      match kind with
      | .directory => "drwxr-xr-x"
      | .file => "-rw-r--r--"
    mode ++ " " ++ Text.padLeft 8 (toString size) ++ " " ++ name ++ "\n"
  else name ++ "\n"

variable {W : Type} [Workspace W]

/-- An operand with its path and what stands there, if anything does. -/
def look (ctx : UtilityContext) (operand : String) :
    WorkspaceM W (String × Option (String × Stat)) := do
  match Path.resolve? ctx.cwd operand with
  | none => return (operand, none)
  | some path => return (operand, (← Workspace.stat path).map (path, ·))

/-- The size to show for an entry; only files in long listings have one. -/
def shownSize (o : Options) (directory : String) (entry : DirEntry) : WorkspaceM W Nat := do
  if o.long && entry.kind = .file then
    match ← Workspace.stat (Path.join directory entry.name) with
    | some stat => return stat.size
    | none => return 0
  else return 0

/-- The lines of a directory. -/
def directoryLines (o : Options) (path : String) : WorkspaceM W String := do
  let dots := if o.all then line o "." .directory 0 ++ line o ".." .directory 0 else ""
  let entries ← Workspace.list path
  let shown := entries.filter fun e => o.all || e.name.toList.head? ≠ some '.'
  let lines ← shown.mapM fun e => return line o e.name e.kind (← shownSize o path e)
  return dots ++ String.join lines

/-- The lines of directories, each under its operand if `headed`; `first` tells whether nothing
stands above. -/
def directorySections (o : Options) (headed : Bool) :
    (first : Bool) → List (String × String) → WorkspaceM W String
  | _, [] => return ""
  | first, (operand, path) :: rest => do
    let header := if headed then (if first then "" else "\n") ++ operand ++ ":\n" else ""
    let lines ← directoryLines o path
    return header ++ lines ++ (← directorySections o headed false rest)

/-- Lists operands, or the working directory. -/
def outcome (ctx : UtilityContext) (args : List String) : WorkspaceM W CommandOutcome := do
  let (flags, operands) := splitFlags args
  match Options.ofFlags flags with
  | .error c => return .fail 2 ("ls: invalid option -- '" ++ String.singleton c ++ "'")
  | .ok o =>
    let operands := if operands.isEmpty then ["."] else operands
    let looked ← operands.mapM (look ctx)
    let missing := looked.filterMap fun (operand, there) =>
      if there.isNone then
        some ("ls: cannot access '" ++ operand ++ "': No such file or directory\n")
      else none
    let files := looked.filterMap fun (operand, there) =>
      match there with
      | some (_, stat) => if stat.kind = .file then some (line o operand .file stat.size) else none
      | none => none
    let directories := looked.filterMap fun (operand, there) =>
      match there with
      | some (path, stat) => if stat.kind = .directory then some (operand, path) else none
      | none => none
    let sections ← directorySections o (1 < operands.length) files.isEmpty directories
    return .ofDiagnostics 2 (String.join files ++ sections) (String.join missing)

end Sandshell.Ls
