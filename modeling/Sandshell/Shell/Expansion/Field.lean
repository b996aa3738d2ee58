import Sandshell.Pattern.Wildcard

/-!
# Fields

Expanding a word gives fragments, each marked with where it comes from. Cutting the fragments at the
blanks of unquoted values gives the fields of the word.
-/

namespace Sandshell

/-- Where expanded text comes from. -/
inductive Origin where
  | quoted
  /-- Unquoted text of the script itself. -/
  | literal
  /-- The value of an unquoted form. -/
  | value
deriving DecidableEq, Repr, Inhabited

/-- A run of expanded text of one origin. -/
structure Fragment where
  origin : Origin
  text : String
deriving DecidableEq, Repr, Inhabited

namespace Fragment

/-- The text of a list of fragments. -/
def join (fragments : List Fragment) : String :=
  String.join (fragments.map (·.text))

/-- Separates fields when it comes from an unquoted value. -/
def isSeparator (c : Char) : Bool :=
  c = ' ' || c = '\t' || c = '\n'

/-- What a fragment contributes to the cutting of a word. -/
inductive Mark where
  /-- The field exists even if it stays empty. -/
  | quote
  /-- The field ends. -/
  | cut
  | glyph (g : Glyph)
deriving DecidableEq, Repr

/-- An unquoted character: its star is a wildcard. -/
def unquotedMark (c : Char) : Mark :=
  .glyph (if c = '*' then .star else .char c)

/-- The marks of a fragment in order. -/
def marks (f : Fragment) : List Mark :=
  match f.origin with
  | .quoted => .quote :: f.text.toList.map fun c => .glyph (.char c)
  | .literal => f.text.toList.map unquotedMark
  | .value => f.text.toList.map fun c => if isSeparator c then .cut else unquotedMark c

end Fragment

/-- A field of a word before file names are matched. -/
structure Field where
  quoted : Bool
  glyphs : List Glyph
deriving DecidableEq, Repr, Inhabited

namespace Field

/-- The field as it stands. -/
def text (f : Field) : String :=
  Wildcard.text f.glyphs

/-- Holds a wildcard. -/
def hasWildcard (f : Field) : Bool :=
  f.glyphs.contains .star

/-- The field of the glyphs read so far, newest first; `none` if nothing has begun it. -/
def ofNewest? (quoted : Bool) (newest : List Glyph) : Option Field :=
  if quoted || !newest.isEmpty then some ⟨quoted, newest.reverse⟩ else none

/-- The fields that the marks cut. Those `done` come first, and the first that the marks cut goes on
after the glyphs read so far; both are kept newest first. -/
def cut (done : List Field) (quoted : Bool) (newest : List Glyph) : List Fragment.Mark → List Field
  | [] => ((ofNewest? quoted newest).toList ++ done).reverse
  | .quote :: rest => cut done true newest rest
  | .cut :: rest => cut ((ofNewest? quoted newest).toList ++ done) false [] rest
  | .glyph g :: rest => cut done quoted (g :: newest) rest

/-- The fields of a word with the given fragments. -/
def ofFragments (fragments : List Fragment) : List Field :=
  cut [] false [] (fragments.flatMap Fragment.marks)

end Field

end Sandshell
