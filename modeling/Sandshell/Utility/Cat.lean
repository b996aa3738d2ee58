import Sandshell.Text.Number
import Sandshell.Utility.Basic

/-!
# Concatenation

Files one after the other, with their lines numbered on demand.
-/

namespace Sandshell.Cat

/-- Bytes cut after each line feed. -/
def lines : Bytes → List Bytes
  | [] => []
  | b :: rest =>
    if b = 10 then [b] :: lines rest
    else
      match lines rest with
      | line :: more => (b :: line) :: more
      | [] => [[b]]

/-- Lines with their numbers before them, counted from `first`. -/
def numberLines (first : Nat) : List Bytes → Bytes
  | [] => []
  | line :: rest =>
    Bytes.ofString (Text.padLeft 6 (toString first) ++ "\t") ++ line ++ numberLines (first + 1) rest

variable {W : Type} [Workspace W]

/-- The contents of an operand; a dash stands for the input. -/
def contents (ctx : UtilityContext) (operand : String) : WorkspaceM W (Except String Bytes) :=
  if operand = "-" then return .ok ctx.stdin else ctx.read operand

/-- The contents that were found. -/
def found (results : List (Except String Bytes)) : List Bytes :=
  results.filterMap fun
    | .ok data => some data
    | .error _ => none

/-- The diagnostics for what was not found. -/
def diagnostics (results : List (Except String Bytes)) : String :=
  String.join (results.filterMap fun
    | .ok _ => none
    | .error e => some ("cat: " ++ e ++ "\n"))

/-- Concatenates operands. -/
def outcome (ctx : UtilityContext) (args : List String) : WorkspaceM W CommandOutcome := do
  let (flags, operands) := splitFlags args
  match flags.find? (· ≠ 'n') with
  | some c => return .fail 1 ("cat: unknown option: -" ++ String.singleton c)
  | none =>
    let results ← (if operands.isEmpty then ["-"] else operands).mapM (contents ctx)
    let data := found results
    let err := diagnostics results
    return {
      exitCode := if err = "" then 0 else 1
      stdout := if flags.isEmpty then data.flatten else numberLines 1 (data.flatMap lines)
      stderr := Bytes.ofString err }

end Sandshell.Cat
