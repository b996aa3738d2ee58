/-!
# Bytes and their UTF-8 reading

Streams and file contents are byte lists. Text enters them through `Bytes.ofString` and leaves them
through `Bytes.text?`, which refuses malformed input, or `Bytes.lossyText`, which replaces every
maximal malformed piece by one U+FFFD.
-/

namespace Sandshell

/-- Contents of files and streams. -/
abbrev Bytes := List UInt8

namespace Bytes

/-- The UTF-8 form of a text. -/
def ofString (s : String) : Bytes :=
  s.toList.flatMap String.utf8EncodeChar

/-- How many bytes a character has whose first byte is `b`; zero if none starts so. -/
def sequenceLength (b : UInt8) : Nat :=
  if b < 0x80 then 1
  else if 0xC2 ≤ b ∧ b ≤ 0xDF then 2
  else if 0xE0 ≤ b ∧ b ≤ 0xEF then 3
  else if 0xF0 ≤ b ∧ b ≤ 0xF4 then 4
  else 0

/-- The second byte is narrowed after the four leads that could spell an overlong form, a surrogate
or a point beyond U+10FFFF. -/
def secondByteRange (lead : UInt8) : UInt8 × UInt8 :=
  if lead = 0xE0 then (0xA0, 0xBF)
  else if lead = 0xED then (0x80, 0x9F)
  else if lead = 0xF0 then (0x90, 0xBF)
  else if lead = 0xF4 then (0x80, 0x8F)
  else (0x80, 0xBF)

/-- At most `n` continuation bytes off the front, the first of them within `range`. -/
def continuation (range : UInt8 × UInt8) : Nat → Bytes → Bytes
  | n + 1, b :: rest =>
    if range.1 ≤ b ∧ b ≤ range.2 then b :: continuation (0x80, 0xBF) n rest else []
  | _, _ => []

/-- The code point spelled by a lead byte and its continuation. -/
def codePoint (lead : UInt8) (tail : Bytes) : Nat :=
  let high :=
    match tail.length with
    | 0 => lead.toNat
    | 1 => lead.toNat % 32
    | 2 => lead.toNat % 16
    | _ => lead.toNat % 8
  tail.foldl (fun point b => point * 64 + b.toNat % 64) high

/-- Reads one character after its lead byte, with the number of bytes it takes beyond the lead;
`none` stands for a maximal malformed piece. -/
def decodeOne (lead : UInt8) (rest : Bytes) : Option Char × Nat :=
  match sequenceLength lead with
  | 0 => (none, 0)
  | n + 1 =>
    let tail := continuation (secondByteRange lead) n rest
    if tail.length = n then (some (Char.ofNat (codePoint lead tail)), n) else (none, tail.length)

/-- The characters of a byte list after those already `read` (newest first), malformed pieces as
`none`. -/
def decodeFrom (read : List (Option Char)) : Bytes → List (Option Char)
  | [] => read.reverse
  | b :: rest =>
    let (c, used) := decodeOne b rest
    decodeFrom (c :: read) (rest.drop used)
termination_by bytes => bytes.length
decreasing_by simp only [List.length_drop, List.length_cons]; omega

/-- The characters of a byte list, malformed pieces as `none`. -/
def decode (bytes : Bytes) : List (Option Char) :=
  decodeFrom [] bytes

/-- The text of well-formed UTF-8. -/
def text? (bytes : Bytes) : Option String :=
  (decode bytes).mapM id |>.map String.ofList

/-- The text of any bytes, with one U+FFFD for each malformed piece. -/
def lossyText (bytes : Bytes) : String :=
  String.ofList ((decode bytes).map (·.getD '\uFFFD'))

end Bytes

end Sandshell
