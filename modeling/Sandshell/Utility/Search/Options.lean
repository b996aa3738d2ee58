import Sandshell.Pattern.Regex.Read
import Sandshell.Text.Number

/-!
# Options of a search

Arguments of `grep` and `rg`. Letters can stand together after one dash; two of them take a value.
-/

namespace Sandshell.Search

/-- What to search for, and what to print. -/
structure Options where
  pattern : String := ""
  files : List String := []
  invert : Bool := false
  ignoreCase : Bool := false
  fixed : Bool := false
  lineNumber : Bool := false
  count : Bool := false
  filesOnly : Bool := false
  withFilename : Bool := false
  silent : Bool := false
  recursive : Bool := false
  maxCount : Option Nat := none
deriving DecidableEq, Repr, Inhabited

/-- Why arguments are no search. -/
inductive OptionError where
  | unknownLong (argument : String)
  | unknownLetter (c : Char)
  | missingValue (c : Char)
  | invalidMaxCount (value : String)
  | missingPattern
deriving DecidableEq, Repr, Inhabited

/-- The wording of arguments that are no search. -/
def OptionError.message : OptionError → String
  | .unknownLong argument => "unknown option: " ++ argument
  | .unknownLetter c => "unknown option: -" ++ String.singleton c
  | .missingValue c => "option requires an argument -- '" ++ String.singleton c ++ "'"
  | .invalidMaxCount value => "invalid max count: " ++ value
  | .missingPattern => "missing pattern"

namespace Options

/-- Sets the option with a long name. -/
def long? (o : Options) : String → Option Options
  | "invert-match" => some { o with invert := true }
  | "ignore-case" => some { o with ignoreCase := true }
  | "fixed-strings" => some { o with fixed := true }
  | "line-number" => some { o with lineNumber := true }
  | "count" => some { o with count := true }
  | "files-with-matches" => some { o with filesOnly := true }
  | "with-filename" => some { o with withFilename := true }
  | "quiet" | "silent" => some { o with silent := true }
  | "recursive" => some { o with recursive := true }
  | _ => none

/-- Sets the option with a letter that takes no value. -/
def letter? (o : Options) : Char → Option Options
  | 'v' => some { o with invert := true }
  | 'i' => some { o with ignoreCase := true }
  | 'F' => some { o with fixed := true }
  | 'n' => some { o with lineNumber := true }
  | 'c' => some { o with count := true }
  | 'l' => some { o with filesOnly := true }
  | 'H' => some { o with withFilename := true }
  | 'q' => some { o with silent := true }
  | 'r' | 'R' => some { o with recursive := true }
  | _ => none

/-- Arguments that have been read: options, the pattern given by a letter, and the other arguments,
newest first. -/
structure Draft where
  options : Options := {}
  pattern : Option String := none
  positional : List String := []

/-- Reads on: `letters` are left of the argument before `args`. -/
def Draft.read (d : Draft) (letters : List Char) (args : List String) : Except OptionError Draft :=
  match letters with
  | 'e' :: [] =>
    match args with
    | [] => .error (.missingValue 'e')
    | value :: rest => { d with pattern := some value }.read [] rest
  | 'e' :: c :: more => { d with pattern := some (String.ofList (c :: more)) }.read [] args
  | 'm' :: more =>
    match args with
    | [] => .error (.missingValue 'm')
    | value :: rest =>
      match Text.natural? value with
      | some n => { d with options := { d.options with maxCount := some n } }.read more rest
      | none => .error (.invalidMaxCount value)
  | c :: more =>
    match d.options.letter? c with
    | some options => { d with options }.read more args
    | none => .error (.unknownLetter c)
  | [] =>
    match args with
    | [] => .ok d
    | argument :: rest =>
      match argument.toList with
      | '-' :: '-' :: name =>
        if name = [] then .ok { d with positional := rest.reverse ++ d.positional }
        else
          match d.options.long? (String.ofList name) with
          | some options => { d with options }.read [] rest
          | none => .error (.unknownLong argument)
      | '-' :: c :: more => d.read (c :: more) rest
      | _ => { d with positional := argument :: d.positional }.read [] rest
termination_by (args.length, letters.length)

/-- The search that arguments spell. The first argument that is no option is the pattern, unless a
letter gives it. -/
def parse (args : List String) : Except OptionError Options := do
  let d ← ({} : Draft).read [] args
  match d.pattern, d.positional.reverse with
  | some pattern, files => return { d.options with pattern, files }
  | none, pattern :: files => return { d.options with pattern, files }
  | none, [] => throw .missingPattern

/-- The pattern as a regular expression. -/
def expression (o : Options) : String :=
  (if o.ignoreCase then "(?i)" else "") ++ (if o.fixed then Regex.escape o.pattern else o.pattern)

end Options

end Sandshell.Search
