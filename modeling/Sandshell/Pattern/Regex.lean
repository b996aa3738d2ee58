import Sandshell.Pattern.CharSet

/-!
# Regular expressions

Expressions over the characters of a line, with assertions about the place between two characters.
Matching follows all alternatives at once: it maps the set of places where an expression may start
to the set of places where it may end.
-/

namespace Sandshell

/-- What an assertion asks of a place in a line. -/
inductive Look where
  | start
  | finish
  | lineStart
  | lineFinish
  /-- A line starts here, where a carriage return ends lines as well. -/
  | anyLineStart
  /-- A line ends here, where a carriage return ends lines as well. -/
  | anyLineFinish
  | wordEdge
  | noWordEdge
  | wordStart
  | wordFinish
  | wordStartHalf
  | wordFinishHalf
deriving DecidableEq, Repr, Inhabited

namespace Look

/-- A character of a word, ASCII only. -/
def isWordChar (c : Char) : Bool :=
  c.isAlphanum || c = '_'

/-- Holds between the characters `before` and `after`. A carriage return and the line break after
it end a line together. -/
def holds (before after : Option Char) : Look → Bool
  | .start => before.isNone
  | .finish => after.isNone
  | .lineStart => before.all (· = '\n')
  | .lineFinish => after.all (· = '\n')
  | .anyLineStart => before.all fun c => c = '\n' || (c = '\r' && after ≠ some '\n')
  | .anyLineFinish => after.all fun c => c = '\r' || (c = '\n' && before ≠ some '\r')
  | .wordEdge => before.any isWordChar != after.any isWordChar
  | .noWordEdge => before.any isWordChar == after.any isWordChar
  | .wordStart => !before.any isWordChar && after.any isWordChar
  | .wordFinish => before.any isWordChar && !after.any isWordChar
  | .wordStartHalf => !before.any isWordChar
  | .wordFinishHalf => !after.any isWordChar

end Look

/-- A regular expression. -/
inductive Regex where
  | empty
  | set (chars : CharSet)
  | look (l : Look)
  | concat (first second : Regex)
  | either (first second : Regex)
  /-- At least `min` times, and at most `max` times if that is given. -/
  | repetition (min : Nat) (max : Option Nat) (body : Regex)
deriving DecidableEq, Repr, Inhabited

namespace Regex

/-- Places in a line, ascending. -/
abbrev Places := List Nat

/-- The places of either list. -/
def union : Places → Places → Places
  | [], ys => ys
  | xs, [] => xs
  | x :: xs, y :: ys =>
    if x < y then x :: union xs (y :: ys)
    else if y < x then y :: union (x :: xs) ys
    else x :: union xs ys
termination_by xs ys => xs.length + ys.length

/-- The places of the first list that are not in the second one. -/
def without : Places → Places → Places
  | [], _ => []
  | xs, [] => xs
  | x :: xs, y :: ys =>
    if x < y then x :: without xs (y :: ys)
    else if y < x then without (x :: xs) ys
    else without xs ys
termination_by xs ys => xs.length + ys.length

/-- The result of `count` moves; a set that a move leaves alone stays as it is. -/
def moves (move : Places → Places) : Nat → Places → Places
  | 0, places => places
  | count + 1, places =>
    let next := move places
    if next = places then places else moves move count next

/-- The places reached by at most `count` moves from the newly found places, added to `found`. -/
def reach (move : Places → Places) : Nat → (found fresh : Places) → Places
  | 0, found, _ => found
  | count + 1, found, fresh =>
    let next := without (move fresh) found
    if next.isEmpty then found else reach move count (union found next) next

/-- The places where an expression may end that starts at one of the given places. -/
def ends (text : Array Char) : Regex → Places → Places
  | .empty, places => places
  | .set chars, places =>
    places.filterMap fun p =>
      match text[p]? with
      | some c => if chars.contains c then some (p + 1) else none
      | none => none
  | .look l, places =>
    places.filter fun p => l.holds (if p = 0 then none else text[p - 1]?) text[p]?
  | .concat first second, places => ends text second (ends text first places)
  | .either first second, places => union (ends text first places) (ends text second places)
  | .repetition min max body, places =>
    let start := moves (fun ps => ends text body ps) min places
    let more :=
      match max with
      | some max => Nat.min (max - min) (text.size + 1)
      | none => text.size + 1
    reach (fun ps => ends text body ps) more start start

/-- Matches somewhere in a line. -/
def isMatch (r : Regex) (line : String) : Bool :=
  let chars := line.toList.toArray
  !(ends chars r (List.range (chars.size + 1))).isEmpty

end Regex

end Sandshell
