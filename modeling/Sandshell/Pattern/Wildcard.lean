/-!
# Wildcards

Patterns with one wildcard, a star that stands for any run of characters but never for the dot that
starts a name. Every other character stands for itself.
-/

namespace Sandshell

/-- A character of a pattern. -/
inductive Glyph where
  | star
  | char (c : Char)
deriving DecidableEq, Repr, Inhabited

/-- The character that spells a glyph. -/
def Glyph.toChar : Glyph → Char
  | .star => '*'
  | .char c => c

namespace Wildcard

/-- Matches a whole name; `start` tells whether nothing of the name has been read. -/
def matchesFrom (start : Bool) : List Glyph → List Char → Bool
  | [], [] => true
  | [], _ :: _ => false
  | .star :: pattern, [] => matchesFrom start pattern []
  | .star :: pattern, c :: name =>
    matchesFrom start pattern (c :: name)
      || (!(start && c = '.') && matchesFrom false (.star :: pattern) name)
  | .char _ :: _, [] => false
  | .char d :: pattern, c :: name => c = d && matchesFrom false pattern name
termination_by pattern name => pattern.length + name.length

/-- Matches a whole name. -/
def matches? (pattern : List Glyph) (name : String) : Bool :=
  matchesFrom true pattern name.toList

/-- Two stars stand next to each other. -/
def hasDoubleStar : List Glyph → Bool
  | .star :: .star :: _ => true
  | _ :: rest => hasDoubleStar rest
  | [] => false

/-- Stars stand alone, or the pattern is a pair of stars, which matches like one. -/
def isValid (pattern : List Glyph) : Bool :=
  !hasDoubleStar pattern || pattern = [.star, .star]

/-- The pieces of a pattern between the slashes. -/
def segments : List Glyph → List (List Glyph)
  | [] => [[]]
  | g :: rest =>
    if g = .char '/' then [] :: segments rest
    else
      match segments rest with
      | piece :: pieces => (g :: piece) :: pieces
      | [] => [[g]]

/-- The text that spells a pattern. -/
def text (pattern : List Glyph) : String :=
  String.ofList (pattern.map Glyph.toChar)

end Wildcard

end Sandshell
