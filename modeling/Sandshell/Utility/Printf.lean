import Sandshell.Shell.State
import Sandshell.Text.Ranges
import Sandshell.Text.Number

/-!
# Formatted printing

A format is read once into directives, and its passes go over the arguments until none is left.
-/

namespace Sandshell.Printf

/-- A directive of a format. -/
inductive Directive where
  | text (s : String)
  | string
  | integer
deriving DecidableEq, Repr, Inhabited

/-- The directives of a format. Unknown escapes and conversions stand for themselves. -/
def directives : List Char → List Directive
  | '\\' :: 'n' :: rest => .text "\n" :: directives rest
  | '\\' :: 't' :: rest => .text "\t" :: directives rest
  | '\\' :: '\\' :: rest => .text "\\" :: directives rest
  | '\\' :: c :: rest => .text (String.ofList ['\\', c]) :: directives rest
  | '%' :: '%' :: rest => .text "%" :: directives rest
  | '%' :: 's' :: rest => .string :: directives rest
  | '%' :: 'd' :: rest => .integer :: directives rest
  | '%' :: 'i' :: rest => .integer :: directives rest
  | c :: rest => .text (String.singleton c) :: directives rest
  | [] => []

/-- What has been printed. -/
structure Printed where
  out : String
  err : String
deriving DecidableEq, Repr, Inhabited

/-- One text after another, on both streams. -/
def Printed.append (first second : Printed) : Printed :=
  ⟨first.out ++ second.out, first.err ++ second.err⟩

/-- An argument as an integer: zero and a diagnostic if it is none. -/
def printInteger (argument : String) : Printed :=
  match Text.integer? (Text.trim argument) with
  | some n => ⟨toString n, ""⟩
  | none => ⟨"0", "printf: " ++ argument ++ ": invalid number\n"⟩

/-- One pass over a format, with the arguments that it leaves. Missing arguments are empty or
zero. -/
def pass : List Directive → List String → Printed × List String
  | [], args => (⟨"", ""⟩, args)
  | .text s :: rest, args =>
    let (printed, left) := pass rest args
    (Printed.append ⟨s, ""⟩ printed, left)
  | .string :: rest, args =>
    let (printed, left) := pass rest args.tail
    (Printed.append ⟨args.headD "", ""⟩ printed, left)
  | .integer :: rest, args =>
    let (printed, left) := pass rest args.tail
    (Printed.append (printInteger (args.headD "0")) printed, left)

/-- Passes over a format until no argument is left, or once if a pass takes no argument. -/
def passes (format : List Directive) (args : List String) : Printed :=
  let (printed, left) := pass format args
  if left ≠ [] ∧ left.length < args.length then printed.append (passes format left) else printed
termination_by args.length

/-- The outcome of printing arguments in a format. -/
def outcome : List String → CommandOutcome
  | [] => .fail 2 "printf: usage: printf FORMAT [ARGUMENTS...]"
  | format :: args =>
    let printed := passes (directives format.toList) args
    .ofDiagnostics 1 printed.out printed.err

end Sandshell.Printf
