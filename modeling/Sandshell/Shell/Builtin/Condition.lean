import Sandshell.Shell.State
import Sandshell.Text.Ranges
import Sandshell.Text.Number

/-!
# Conditions

What `test` and `[` decide. Arguments are read by their number after leading exclamation marks are
taken off; all but questions about files are decided at once.
-/

namespace Sandshell

/-- A question about a path. -/
inductive FileTest where
  | present
  | file
  | directory
  | filledFile
deriving DecidableEq, Repr, Inhabited

namespace FileTest

/-- The question that an operator asks. -/
def named? : String → Option FileTest
  | "-e" => some .present
  | "-f" => some .file
  | "-d" => some .directory
  | "-s" => some .filledFile
  | _ => none

/-- The answer for what stands at the path. -/
def holds : FileTest → Option Stat → Bool
  | _, none => false
  | .present, some _ => true
  | .file, some stat => stat.kind = .file
  | .directory, some stat => stat.kind = .directory
  | .filledFile, some stat => stat.kind = .file && 0 < stat.size

end FileTest

/-- The comparison of integers with an operator. -/
def integerComparison? : String → Option (Int → Int → Bool)
  | "-eq" => some fun l r => l = r
  | "-ne" => some fun l r => l ≠ r
  | "-lt" => some fun l r => l < r
  | "-le" => some fun l r => l ≤ r
  | "-gt" => some fun l r => r < l
  | "-ge" => some fun l r => r ≤ l
  | _ => none

/-- Why arguments are no condition. -/
inductive ConditionError where
  | unaryExpected (operator : String)
  | binaryExpected (operator : String)
  | integerExpected (operand : String)
  | tooManyArguments
deriving DecidableEq, Repr, Inhabited

/-- The wording of arguments that are no condition. -/
def ConditionError.message : ConditionError → String
  | .unaryExpected operator => operator ++ ": unary operator expected"
  | .binaryExpected operator => operator ++ ": binary operator expected"
  | .integerExpected operand => operand ++ ": integer expression expected"
  | .tooManyArguments => "too many arguments"

/-- A condition. -/
inductive Condition where
  | decided (value : Bool)
  | file (test : FileTest) (operand : String)
deriving DecidableEq, Repr, Inhabited

namespace Condition

/-- Takes off leading exclamation marks, except where nothing would be left; tells whether their
number is odd. -/
def takeNegations : List String → Bool × List String
  | "!" :: next :: rest =>
    let (odd, args) := takeNegations (next :: rest)
    (!odd, args)
  | args => (false, args)

/-- The integer that an operand spells between blanks. -/
def operandInteger (operand : String) : Except ConditionError Int :=
  match Text.integer? (Text.trim operand) with
  | some n => .ok n
  | none => .error (.integerExpected operand)

/-- A condition on one operand. -/
def unary (operator operand : String) : Except ConditionError Condition :=
  if operator = "-z" then .ok (.decided (operand = ""))
  else if operator = "-n" then .ok (.decided (operand ≠ ""))
  else
    match FileTest.named? operator with
    | some test => .ok (.file test operand)
    | none => .error (.unaryExpected operator)

/-- A condition on two operands. -/
def binary (left operator right : String) : Except ConditionError Condition :=
  if operator = "=" || operator = "==" then .ok (.decided (left = right))
  else if operator = "!=" then .ok (.decided (left ≠ right))
  else
    match integerComparison? operator with
    | some compare => do
      let l ← operandInteger left
      let r ← operandInteger right
      return .decided (compare l r)
    | none => .error (.binaryExpected operator)

/-- The condition that arguments without leading negations spell. -/
def ofArguments : List String → Except ConditionError Condition
  | [] => .ok (.decided false)
  | [value] => .ok (.decided (value ≠ ""))
  | [operator, operand] => unary operator operand
  | [left, operator, right] => binary left operator right
  | _ => .error .tooManyArguments

variable {W : Type} [Workspace W]

/-- Decides a condition; a path that leads out of the workspace has nothing at it. -/
def decide (cwd : String) : Condition → WorkspaceM W Bool
  | .decided value => return value
  | .file test operand =>
    match Path.resolve? cwd operand with
    | some path => return test.holds (← Workspace.stat path)
    | none => return false

/-- The outcome of a test of arguments. -/
def outcome (cwd : String) (args : List String) : WorkspaceM W CommandOutcome := do
  let (negated, args) := takeNegations args
  match ofArguments args with
  | .error e => return .fail 2 ("test: " ++ e.message)
  | .ok condition =>
    let value ← decide cwd condition
    return .code (if value != negated then 0 else 1)

end Condition

end Sandshell
