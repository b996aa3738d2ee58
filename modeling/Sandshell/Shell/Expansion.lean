import Sandshell.Shell.Expansion.Field
import Sandshell.Shell.Expansion.Glob
import Sandshell.Shell.Expansion.Piece

/-!
# Expansion of words

A word is expanded part by part into fragments, the fragments are cut into fields, and fields with
wildcards are matched against the workspace. Running a substituted script is left to the caller, who
passes it in.
-/

namespace Sandshell

/-- What expansion changes: the workspace, through substituted scripts, and the diagnostics that
those scripts leave. -/
structure Expanding (W : Type) where
  workspace : W
  diagnostics : Bytes := []

/-- A step of expansion. -/
abbrev ExpandM (W : Type) := ExceptT ShellError (StateM (Expanding W))

/-- What expansion looks at. -/
structure ExpandContext (W : Type) where
  state : ShellState
  /-- The text that stands for a command substitution. -/
  substitute : String → ExpandM W String

namespace Expand

variable {W : Type}

mutual

/-- The fragment that a piece stands for. -/
def piece (ctx : ExpandContext W) : Piece → ExpandM W Fragment
  | .char c => return ⟨.literal, String.singleton c⟩
  | .parameter p => return ⟨.value, (p.value? ctx.state).getD ""⟩
  | .parameterOr p default => do
    let value := (p.value? ctx.state).getD ""
    if value ≠ "" then return ⟨.value, value⟩
    return ⟨.value, Fragment.join (← pieces ctx default)⟩
  | .substitution script => return ⟨.value, ← ctx.substitute script⟩
  | .unclosedSubstitution => throw (.expansion .unterminatedSubstitution)
  | .badSubstitution body => throw (.expansion (.badSubstitution body))

/-- The fragments of pieces, from left to right. -/
def pieces (ctx : ExpandContext W) : List Piece → ExpandM W (List Fragment)
  | [] => return []
  | p :: rest => do
    let fragment ← piece ctx p
    return fragment :: (← pieces ctx rest)

end

/-- The fragments of one part of a word. -/
def part (ctx : ExpandContext W) (p : WordPart) : ExpandM W (List Fragment) := do
  match p.quote with
  | .single => return [⟨.quoted, p.text⟩]
  | .double => return [⟨.quoted, Fragment.join (← pieces ctx (Piece.scan p.text.toList))⟩]
  | .none => pieces ctx (Piece.scan p.text.toList)

/-- The fragments of a word. -/
def fragments (ctx : ExpandContext W) (w : Word) : ExpandM W (List Fragment) :=
  return (← w.parts.mapM (part ctx)).flatten

/-- The one string that a word stands for: neither cut nor matched. -/
def toText (ctx : ExpandContext W) (w : Word) : ExpandM W String :=
  return Fragment.join (← fragments ctx w)

variable [Workspace W]

/-- What a field stands for: the names it matches, or its own text if there are none. -/
def field (cwd : String) (f : Field) : ExpandM W (List String) := do
  if !f.hasWildcard then return [f.text]
  let e ← get
  let (names, workspace) := (Glob.expand cwd f.glyphs).run e.workspace
  set { e with workspace }
  return if names.isEmpty then [f.text] else names

/-- The fields that a word stands for. -/
def word (ctx : ExpandContext W) (w : Word) : ExpandM W (List String) := do
  let fields := Field.ofFragments (← fragments ctx w)
  return (← fields.mapM (field ctx.state.cwd)).flatten

/-- The fields that words stand for. -/
def words (ctx : ExpandContext W) (ws : List Word) : ExpandM W (List String) :=
  return (← ws.mapM (word ctx)).flatten

end Expand

end Sandshell
