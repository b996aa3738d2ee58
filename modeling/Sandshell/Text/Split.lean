/-!
# Cutting text

Splitting at a separator, cutting into lines, and taking off a given end.
-/

namespace Sandshell.Text

/-- The pieces between the separators: one more than there are separators. -/
def splitChars (separator : Char) : List Char → List (List Char)
  | [] => [[]]
  | c :: rest =>
    if c = separator then [] :: splitChars separator rest
    else
      match splitChars separator rest with
      | piece :: pieces => (c :: piece) :: pieces
      | [] => [[c]]

/-- The pieces of `s` between the separators. -/
def split (separator : Char) (s : String) : List String :=
  (splitChars separator s.toList).map String.ofList

/-- What stands before and after the first `separator`. -/
def splitFirst? (separator : Char) (s : String) : Option (String × String) :=
  let chars := s.toList
  match chars.dropWhile (· ≠ separator) with
  | [] => none
  | _ :: rest => some (String.ofList (chars.takeWhile (· ≠ separator)), String.ofList rest)

/-- What stands before and after the last `separator`. -/
def splitLast? (separator : Char) (s : String) : Option (String × String) :=
  let chars := s.toList.reverse
  match chars.dropWhile (· ≠ separator) with
  | [] => none
  | _ :: before =>
    some (String.ofList before.reverse, String.ofList (chars.takeWhile (· ≠ separator)).reverse)

/-- Without the leading `c`s. -/
def trimLeft (c : Char) (s : String) : String :=
  String.ofList (s.toList.dropWhile (· = c))

/-- Without the trailing `c`s. -/
def trimRight (c : Char) (s : String) : String :=
  String.ofList (s.toList.reverse.dropWhile (· = c)).reverse

/-- Lines with their line breaks; a text that ends in a line break has no empty last line. -/
def lineChunks (s : String) : List String :=
  match (splitChars '\n' s.toList).reverse with
  | [] => []
  | last :: before =>
    let closed := before.reverse.map fun line => String.ofList (line ++ ['\n'])
    if last.isEmpty then closed else closed ++ [String.ofList last]

/-- A line without its line break; a carriage return before the break belongs to the break. -/
def withoutBreak (line : String) : String :=
  match line.toList.reverse with
  | '\n' :: '\r' :: before => String.ofList before.reverse
  | '\n' :: before => String.ofList before.reverse
  | _ => line

/-- Lines without their line breaks. -/
def lines (s : String) : List String :=
  (lineChunks s).map withoutBreak

end Sandshell.Text
