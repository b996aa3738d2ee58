import Std.Data.ExtTreeMap
import Sandshell.Wire.Value

/-!
# Reading text as exchanged values

`Value.read?` reads the text of a value. Numbers without point and exponent are integers as long as
they fit 64 bits, signed or not. All others are rounded to a binary number.
-/

namespace Sandshell.Wire

open scoped Arithmetic

namespace Value

/-- Without the blanks in front. -/
def skipBlanks (s : List Char) : List Char :=
  s.dropWhile fun c => c = ' ' || c = '\n' || c = '\r' || c = '\t'

/-! ## Numbers -/

/-- Digits as a number of 64 bits times a power of ten. -/
structure Decimal where
  significand : Nat := 0
  exponent : Int := 0

namespace Decimal

/-- Takes a digit into the significand if there is room for it. -/
def push? (d : Decimal) (digit : Char) : Option Decimal :=
  let next := d.significand * 10 + (digit.toNat - '0'.toNat)
  if next < 2 ^ (64 : Nat) then some { d with significand := next } else none

/-- Digits before the point. Once there is no room only their number counts. -/
def whole (d : Decimal) : List Char → Decimal
  | [] => d
  | digit :: rest =>
    match d.push? digit with
    | some next => whole next rest
    | none => { d with exponent := d.exponent + 1 + rest.length }

/-- Digits after the point. Once there is no room they do not count. -/
def fraction (d : Decimal) : List Char → Decimal
  | [] => d
  | digit :: rest =>
    match d.push? digit with
    | some next => fraction { next with exponent := next.exponent - 1 } rest
    | none => d

/-- A power of ten, rounded. -/
def power (n : Nat) : Float := Float.ofScientific 1 false n

/-- The highest power of ten among the binary numbers. -/
def maxPower : Nat := 308

/-- A quotient by a power of ten, taken in steps if the power is too high. -/
def divided (x : Float) (n : Nat) : Float :=
  if n ≤ maxPower then x / power n
  else if x == 0 then x
  else divided (x / power maxPower) (n - maxPower)
termination_by n
decreasing_by
  have : 0 < maxPower := by decide
  omega

/-- The binary number: significand and power are rounded on their own, and their product or quotient
once more. There is none beyond the largest one. -/
def toFloat? (d : Decimal) : Option Float :=
  let x := Float.ofScientific d.significand false 0
  if d.exponent < 0 then some (divided x d.exponent.natAbs)
  else if d.exponent.toNat ≤ maxPower then
    let y := x * power d.exponent.toNat
    if y.isInf then none else some y
  else if x == 0 then some x
  else none

end Decimal

/-- Digits in front, and the text after them; there has to be one. -/
def digits? (s : List Char) : Option (List Char × List Char) :=
  let digits := s.takeWhile Char.isDigit
  if digits.isEmpty then none else some (digits, s.dropWhile Char.isDigit)

/-- An exponent and the text after it; without a mark it is zero. -/
def readExponent (s : List Char) : Option (Int × List Char) :=
  match s with
  | 'e' :: rest | 'E' :: rest => do
    let negative := rest.head? = some '-'
    let (digits, after) ← digits? (if negative || rest.head? = some '+' then rest.drop 1 else rest)
    let n : Nat := digits.foldl (fun n c => n * 10 + (c.toNat - '0'.toNat)) 0
    return (if negative then -n else n, after)
  | s => some (0, s)

/-- The integer of some digits, unless it does not fit 64 bits. There is no negative zero. -/
def integer? (negative : Bool) (digits : List Char) : Option Value :=
  let n : Nat := digits.foldl (fun n c => n * 10 + (c.toNat - '0'.toNat)) 0
  if !negative && n < 2 ^ (64 : Nat) then some (.integer n)
  else if negative && 0 < n && n ≤ 2 ^ (63 : Nat) then some (.integer (-n))
  else none

/-- A number, and the text after it. -/
def readNumber (s : List Char) : Option (Value × List Char) := do
  let negative := s.head? = some '-'
  let (digits, rest) ← digits? (if negative then s.drop 1 else s)
  if digits.head? = some '0' && 1 < digits.length then failure
  let (d, rest') ←
    match rest with
    | '.' :: more => do
      let (places, after) ← digits? more
      pure ((Decimal.whole {} digits).fraction places, after)
    | rest => pure (Decimal.whole {} digits, rest)
  let (exponent, after) ← readExponent rest'
  if after.length = rest.length then
    if let some n := integer? negative digits then return (n, after)
  let x ← { d with exponent := d.exponent + exponent }.toFloat?
  return (.real (if negative then -x else x), after)

/-! ## Texts -/

/-- A number of four hexadecimal digits. -/
def unit? (s : List Char) : Option (Nat × List Char) :=
  let value? (c : Char) : Option Nat :=
    if c.isDigit then some (c.toNat - '0'.toNat)
    else if 'a' ≤ c && c ≤ 'f' then some (c.toNat - 'a'.toNat + 10)
    else if 'A' ≤ c && c ≤ 'F' then some (c.toNat - 'A'.toNat + 10)
    else none
  match s with
  | a :: b :: c :: d :: rest => do
    return (((← value? a) * 16 + (← value? b)) * 256 + (← value? c) * 16 + (← value? d), rest)
  | _ => none

/-- A character by its number, or by two that stand for one beyond the first 65536. -/
def numbered? (s : List Char) : Option (Char × List Char) := do
  let (n, rest) ← unit? s
  if 0xD800 ≤ n && n < 0xDC00 then
    match rest with
    | '\\' :: 'u' :: more =>
      let (low, after) ← unit? more
      if 0xDC00 ≤ low && low < 0xE000 then
        return (Char.ofNat (0x10000 + (n - 0xD800) * 0x400 + (low - 0xDC00)), after)
      failure
    | _ => failure
  else if 0xDC00 ≤ n && n < 0xE000 then failure
  else return (Char.ofNat n, rest)

/-- The character that a letter after a backslash stands for. -/
def escape? : Char → Option Char
  | '"' => some '"'
  | '\\' => some '\\'
  | '/' => some '/'
  | 'b' => some '\x08'
  | 'f' => some '\x0c'
  | 'n' => some '\n'
  | 'r' => some '\r'
  | 't' => some '\t'
  | _ => none

/-- A text after its opening quote; `read` is what stands before, newest first. Every round reads a
character. -/
def readText : Nat → List Char → List Char → Option (String × List Char)
  | 0, _, _ => none
  | rounds + 1, read, s =>
    match s with
    | [] => none
    | '"' :: rest => some (String.ofList read.reverse, rest)
    | '\\' :: 'u' :: rest => do
      let (c, after) ← numbered? rest
      readText rounds (c :: read) after
    | '\\' :: c :: rest => do readText rounds ((← escape? c) :: read) rest
    | c :: rest => if c < ' ' then none else readText rounds (c :: read) rest

/-! ## Values -/

/-- Fields in the order of their keys; of two with one key the later one counts. -/
def sorted (fields : List (String × Value)) : List (String × Value) :=
  (fields.foldl (fun (m : Std.ExtTreeMap String Value compare) (key, v) => m.insert key v) ∅).toList

mutual

/-- A value, and the text after it. -/
def readValue : (rounds : Nat) → List Char → Option (Value × List Char)
  | 0, _ => none
  | rounds + 1, s =>
    match skipBlanks s with
    | 'n' :: 'u' :: 'l' :: 'l' :: rest => some (.null, rest)
    | 't' :: 'r' :: 'u' :: 'e' :: rest => some (.bool true, rest)
    | 'f' :: 'a' :: 'l' :: 's' :: 'e' :: rest => some (.bool false, rest)
    | '"' :: rest => do
      let (content, after) ← readText (rest.length + 1) [] rest
      return (.text content, after)
    | '[' :: rest =>
      match skipBlanks rest with
      | ']' :: after => some (.list [], after)
      | rest => do
        let (items, after) ← readItems rounds [] rest
        return (.list items, after)
    | '\x7b' :: rest =>
      match skipBlanks rest with
      | '\x7d' :: after => some (.record [], after)
      | rest => do
        let (fields, after) ← readFields rounds [] rest
        return (.record (sorted fields), after)
    | s => readNumber s

/-- The items of a list up to its end; `read` are those before, newest first. -/
def readItems : (rounds : Nat) → (read : List Value) → List Char →
    Option (List Value × List Char)
  | 0, _, _ => none
  | rounds + 1, read, s => do
    let (v, rest) ← readValue rounds s
    match skipBlanks rest with
    | ',' :: more => readItems rounds (v :: read) more
    | ']' :: after => return ((v :: read).reverse, after)
    | _ => none

/-- The fields of a record up to its end; `read` are those before, newest first. -/
def readFields : (rounds : Nat) → (read : List (String × Value)) → List Char →
    Option (List (String × Value) × List Char)
  | 0, _, _ => none
  | rounds + 1, read, s =>
    match skipBlanks s with
    | '"' :: rest => do
      let (key, rest) ← readText (rest.length + 1) [] rest
      match skipBlanks rest with
      | ':' :: rest =>
        let (v, rest) ← readValue rounds rest
        match skipBlanks rest with
        | ',' :: more => readFields rounds ((key, v) :: read) more
        | '\x7d' :: after => return (((key, v) :: read).reverse, after)
        | _ => none
      | _ => none
    | _ => none

end

/-- The value that a text spells. Every round reads a character. -/
def read? (text : String) : Option Value :=
  let chars := text.toList
  match readValue (2 * chars.length + 2) chars with
  | some (v, rest) => if (skipBlanks rest).isEmpty then some v else none
  | none => none

end Value

end Sandshell.Wire
