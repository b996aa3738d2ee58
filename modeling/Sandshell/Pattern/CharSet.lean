/-!
# Sets of characters

A set of characters is a list of ranges in a normal form: they ascend, and between two of them lies
a gap. So a set has one list, and its length counts.
-/

namespace Sandshell

/-- A set of characters as ranges, ascending and with gaps in between. -/
structure CharSet where
  ranges : List (Char × Char)
deriving DecidableEq, Repr, Inhabited

namespace CharSet

/-- Holds a character. -/
def contains (s : CharSet) (c : Char) : Bool :=
  s.ranges.any fun (low, high) => low ≤ c && c ≤ high

/-- The last character of all. -/
def last : Char := Char.ofNat 0x10FFFF

/-- The character after another one. -/
def next? (c : Char) : Option Char :=
  if c = last then none
  else if c = '\ud7ff' then some '\ue000'
  else some (Char.ofNat (c.toNat + 1))

/-- The character before another one, which is not the first. -/
def previous (c : Char) : Char :=
  if c = '\ue000' then '\ud7ff' else Char.ofNat (c.toNat - 1)

/-- Adds a range to ranges in normal form; those that it meets or touches become one with it. -/
def insert (low high : Char) : List (Char × Char) → List (Char × Char)
  | [] => [(low, high)]
  | (l, h) :: rest =>
    if high.toNat + 1 < l.toNat then (low, high) :: (l, h) :: rest
    else if h.toNat + 1 < low.toNat then (l, h) :: insert low high rest
    else insert (if l < low then l else low) (if high < h then h else high) rest

/-- The set of the characters in some ranges. -/
def ofRanges (ranges : List (Char × Char)) : CharSet where
  ranges := ranges.foldl (fun found (low, high) => insert low high found) []

/-- The set of one character. -/
def single (c : Char) : CharSet := ⟨[(c, c)]⟩

/-- The gaps of ranges in normal form, from a character on. -/
def gaps (start : Char) : List (Char × Char) → List (Char × Char)
  | [] => [(start, last)]
  | (low, high) :: rest =>
    let gap := if start < low then [(start, previous low)] else []
    match next? high with
    | some after => gap ++ gaps after rest
    | none => gap

/-- The characters outside a set. -/
def complement (s : CharSet) : CharSet := ⟨gaps '\x00' s.ranges⟩

/-- The part of a range between two bounds, moved. -/
def shift (first final : Char) (move : Char → Char) (low high : Char) : Option (Char × Char) :=
  if low ≤ final && first ≤ high then
    some (move (if low < first then first else low), move (if final < high then final else high))
  else none

/-- The letters of a range in the other case, ASCII only. Of a range that holds letters of both
cases only the small ones count. -/
def otherCase? (low high : Char) : Option (Char × Char) :=
  (shift 'a' 'z' Char.toUpper low high).or (shift 'A' 'Z' Char.toLower low high)

/-- With the letters of the other case. -/
def foldCase (s : CharSet) : CharSet :=
  ofRanges (s.ranges ++ s.ranges.filterMap fun (low, high) => otherCase? low high)

end CharSet

end Sandshell
