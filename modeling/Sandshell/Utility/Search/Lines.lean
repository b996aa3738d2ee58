import Sandshell.Text.Split
import Sandshell.Utility.Search.Options

/-!
# Selected lines

Which lines of a text a search selects, what it prints of them and how many it counts. What decides
whether a line matches is an argument.
-/

namespace Sandshell.Search

variable (o : Options) (isMatch : String → Bool)

/-- The selected lines of a text with their numbers, from 1. -/
def selected (text : String) : List (Nat × String) :=
  ((Text.lines text).zipIdx 1).filterMap fun (line, number) =>
    if isMatch line != o.invert then some (number, line) else none

/-- Lines are not printed at all. -/
def Options.printsNoLines : Bool :=
  o.filesOnly || o.count || o.silent

/-- The selected lines that are printed: the first ones up to the greatest number, but one line at
least. -/
def printed (text : String) : List (Nat × String) :=
  if o.printsNoLines then []
  else
    match o.maxCount with
    | some max => (selected o isMatch text).take (Nat.max 1 max)
    | none => selected o isMatch text

/-- The number of selected lines; only one is looked for when files are all that is asked for. -/
def counted (text : String) : Nat :=
  if o.filesOnly then Nat.min 1 (selected o isMatch text).length
  else (selected o isMatch text).length

/-- A printed line. -/
def printLine (filename : Option String) (number : Nat) (line : String) : String :=
  (match filename with
    | some f => f ++ ":"
    | none => "")
    ++ (if o.lineNumber then toString number ++ ":" else "") ++ line ++ "\n"

/-- The printed lines of a text. -/
def printLines (filename : Option String) (text : String) : String :=
  String.join ((printed o isMatch text).map fun (number, line) => printLine o filename number line)

/-- Some line of the text is selected. -/
def found (text : String) : Bool :=
  !(selected o isMatch text).isEmpty

end Sandshell.Search
