import Sandshell.Arithmetic

/-!
# Decimal numbers

Readers of decimal text: ASCII digits after an optional sign, within the range of a machine word.
-/

namespace Sandshell.Text

open scoped Arithmetic

/-- The value of a non-empty run of ASCII digits. -/
def digits? (chars : List Char) : Option Nat :=
  if chars.isEmpty then none
  else if chars.all Char.isDigit then
    some (chars.foldl (fun n c => n * 10 + (c.toNat - '0'.toNat)) 0)
  else none

/-- A number below `2 ^ 64` with an optional plus sign. -/
def natural? (s : String) : Option Nat :=
  let digits :=
    match s.toList with
    | '+' :: rest => rest
    | chars => chars
  (digits? digits).filter (· < 2 ^ (64 : Nat))

/-- A number of 64 bits with an optional sign. -/
def integer? (s : String) : Option Int :=
  let value :=
    match s.toList with
    | '+' :: rest => (digits? rest).map Int.ofNat
    | '-' :: rest => (digits? rest).map fun n => -(Int.ofNat n)
    | chars => (digits? chars).map Int.ofNat
  value.filter fun n => decide (-(2 ^ (63 : Nat)) ≤ n ∧ n < 2 ^ (63 : Nat))

/-- `s` with blanks before it up to `width` characters. -/
def padLeft (width : Nat) (s : String) : String :=
  String.ofList (List.replicate (width - s.length) ' ') ++ s

end Sandshell.Text
