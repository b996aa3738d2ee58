import Sandshell.Text.Printable
import Sandshell.Wire.Decimal

/-!
# Exchanged values

Values as they are exchanged with the outside: null, truth values, numbers, texts, lists, and
records whose keys are distinct and ascending.
-/

namespace Sandshell.Wire

/-- An exchanged value. -/
inductive Value where
  | null
  | bool (b : Bool)
  | integer (n : Int)
  | real (x : Float)
  | text (s : String)
  | list (items : List Value)
  | record (fields : List (String × Value))
deriving Repr, Inhabited, BEq

/-- What a value is, in the words of a diagnostic. -/
def Value.description : Value → String
  | .null => "null"
  | .bool b => "boolean \x60" ++ toString b ++ "\x60"
  | .integer n => "integer \x60" ++ toString n ++ "\x60"
  | .real x => "floating point \x60" ++ decimalText x ++ "\x60"
  | .text s => "string " ++ quoted s
  | .list _ => "sequence"
  | .record _ => "map"
where
  /-- A character inside quotes. -/
  shown (c : Char) : List Char :=
    match c with
    | '"' => ['\\', '"']
    | '\\' => ['\\', '\\']
    | '\n' => ['\\', 'n']
    | '\r' => ['\\', 'r']
    | '\t' => ['\\', 't']
    | '\x00' => ['\\', '0']
    | c =>
      if Text.isPrintable c then [c]
      else ['\\', 'u', '\x7b'] ++ Nat.toDigits 16 c.toNat ++ ['\x7d']
  /-- A text in quotes; what does not show on its own is given by its number. -/
  quoted (s : String) : String :=
    "\"" ++ String.ofList (s.toList.flatMap shown) ++ "\""

end Sandshell.Wire
