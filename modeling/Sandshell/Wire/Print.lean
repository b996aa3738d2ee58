import Sandshell.Wire.Value

/-!
# Printing exchanged values

The compact form: no blanks, keys in the order of the record, and in texts only quotes, backslashes
and control characters escaped.
-/

namespace Sandshell.Wire

/-- The lower case hexadecimal digit of a number below 16. -/
def hexDigit (n : Nat) : Char :=
  (Nat.digitChar n)

/-- A character inside quotes. -/
def escapeChar (c : Char) : List Char :=
  if c = '"' then ['\\', '"']
  else if c = '\\' then ['\\', '\\']
  else if c = '\n' then ['\\', 'n']
  else if c = '\r' then ['\\', 'r']
  else if c = '\t' then ['\\', 't']
  else if c.toNat = 8 then ['\\', 'b']
  else if c.toNat = 12 then ['\\', 'f']
  else if c.toNat < 32 then
    ['\\', 'u', '0', '0', hexDigit (c.toNat / 16), hexDigit (c.toNat % 16)]
  else [c]

/-- A text in quotes. -/
def quote (s : String) : String :=
  "\"" ++ String.ofList (s.toList.flatMap escapeChar) ++ "\""

namespace Value

mutual

/-- The compact form of a value. -/
def print : Value → String
  | .null => "null"
  | .bool b => toString b
  | .integer n => toString n
  | .real x => decimalText x
  | .text s => quote s
  | .list items => "[" ++ ",".intercalate (printAll items) ++ "]"
  | .record fields => "\x7b" ++ ",".intercalate (printFields fields) ++ "\x7d"

/-- The compact forms of values. -/
def printAll : List Value → List String
  | [] => []
  | v :: rest => print v :: printAll rest

/-- The compact forms of the fields of a record. -/
def printFields : List (String × Value) → List String
  | [] => []
  | (key, v) :: rest => (quote key ++ ":" ++ print v) :: printFields rest

end

end Value

end Sandshell.Wire
