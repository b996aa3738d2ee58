import Sandshell.Arithmetic
import Sandshell.Pattern.Regex

/-!
# Measured expressions

An expression together with what limits look at: how deep it nests, and how large a matching program
it needs. The program has a state for each character, set and assertion, and repeats what is
counted, so a short pattern can need a large one.
-/

namespace Sandshell.Regex

open scoped Arithmetic

/-- Nesting beyond this is refused. -/
def nestLimit : Nat := 50

/-- Programs beyond this many bytes are refused. -/
def sizeLimit : Nat := 10 * 2 ^ (20 : Nat)

/-- What a state takes. -/
def stateSize : Nat := 32

/-- What a range of a set takes on top. -/
def rangeSize : Nat := 8

/-- What a state takes that leads to two others. -/
def branchSize : Nat := stateSize + 8

/-- What the table of groups takes for each of them. -/
def groupSize : Nat := 16

/-- Expressions one after the other. -/
def concatAll : List Regex → Regex
  | [] => .empty
  | [r] => r
  | r :: rest => .concat r (concatAll rest)

/-- Any of the expressions. -/
def eitherAll : List Regex → Regex
  | [] => .empty
  | [r] => r
  | r :: rest => .either r (eitherAll rest)

/-- Can match the empty text. -/
def isOptional : Regex → Bool
  | .empty => true
  | .set _ => false
  | .look _ => true
  | .concat first second => isOptional first && isOptional second
  | .either first second => isOptional first || isOptional second
  | .repetition min _ body => min = 0 || isOptional body

/-- A group that captures: its number, and what its name takes. -/
structure Capture where
  number : Nat
  nameSize : Nat := 0

/-- An expression with its measures. -/
structure Node where
  regex : Regex
  height : Nat := 0
  size : Nat := stateSize
  /-- The number of the last group that captures in it. -/
  lastGroup : Nat := 0
  /-- What the names of its groups take. -/
  nameSize : Nat := 0

namespace Node

/-- The empty expression. -/
def empty : Node := { regex := .empty }

/-- A character. -/
def char (c : Char) : Node := { regex := .set (.single c) }

/-- A set of characters. -/
def set (s : CharSet) : Node where
  regex := .set s
  size := stateSize + rangeSize * s.ranges.length

/-- An assertion. -/
def look (l : Look) : Node := { regex := .look l }

/-- An expression made of several others, with a program of `extra` bytes around theirs. -/
def join (regex : Regex) (extra : Nat) (parts : List Node) : Node where
  regex
  height := parts.foldl (fun n p => max n p.height) 0 + 1
  size := extra + (parts.map Node.size).sum
  lastGroup := parts.foldl (fun n p => max n p.lastGroup) 0
  nameSize := (parts.map Node.nameSize).sum

/-- Expressions one after the other. -/
def concat : List Node → Node
  | [] => empty
  | [n] => n
  | parts => join (concatAll (parts.map Node.regex)) 0 parts

/-- Any of the expressions. One state leads to all of them, and all lead to one. -/
def either : List Node → Node
  | [] => empty
  | [n] => n
  | parts => join (eitherAll (parts.map Node.regex)) (2 * stateSize + 4 * parts.length) parts

/-- A group that captures what stands in it. -/
def capture (c : Capture) (n : Node) : Node :=
  { n with
    height := n.height + 1
    size := n.size + 2 * stateSize
    lastGroup := max c.number n.lastGroup
    nameSize := c.nameSize + n.nameSize }

/-- What the program of a repetition takes whose body takes `body` bytes: a copy of the body for
every time that it has to match, and a branch in front of every time that it may. -/
def repetitionSize (min : Nat) (max : Option Nat) (isOptional : Bool) (body : Nat) : Nat :=
  let required := min * body
  match max with
  | some max =>
    if min = 0 && max = 1 then branchSize + body + stateSize
    else if min = max then required
    else
      (if min = 0 then stateSize else required) + stateSize + (max - min) * (branchSize + body)
  | none =>
    if 0 < min then required + branchSize
    else if isOptional then body + 2 * branchSize + stateSize
    else branchSize + body

/-- A repetition. Without any time nothing is left of the body, and one time is the body itself. -/
def repetition (min : Nat) (max : Option Nat) (n : Node) : Node :=
  if max = some 0 then empty
  else if min = 1 && max = some 1 then n
  else
    { n with
      regex := .repetition min max n.regex
      height := n.height + 1
      size := repetitionSize min max n.regex.isOptional n.size }

/-- The size of the program of a whole pattern: the pattern is a group too, and one state more stands
for the match. -/
def programSize (n : Node) : Nat :=
  n.size + 3 * stateSize + groupSize * (n.lastGroup + 1) + n.nameSize

end Node

end Sandshell.Regex
