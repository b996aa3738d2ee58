import Sandshell.Arithmetic

/-!
# Decimal text

Numbers with a binary point are written with the fewest decimal digits that tell them from their
neighbours: those of the coarsest decimal grid that has a point among the reals that round to the
number. All comparisons are exact, between naturals.
-/

namespace Sandshell.Wire

open scoped Arithmetic

/-- The reals that round to a positive number of 64 bits. In units of `1 / scale` they lie between
`low` and `high` around `value`; the ends are among them if `closed`. -/
structure Rounding where
  scale : Nat
  low : Nat
  value : Nat
  high : Nat
  closed : Bool

namespace Rounding

/-- The reals that round to the positive number with these bits. Below a power of two the numbers
stand half as far apart, so the end there is half as far away. -/
def ofBits (bits : UInt64) : Rounding :=
  let field := (bits >>> 52 &&& 0x7FF).toNat
  let fraction := (bits &&& 0xFFFFFFFFFFFFF).toNat
  let mantissa := if field = 0 then fraction else 2 ^ (52 : Nat) + fraction
  /- the number is `mantissa * 2 ^ weight / 2 ^ 1076`, so quarters of it are still whole -/
  let weight := if field = 0 then 2 else field + 1
  let quarter := 2 ^ (weight - 2)
  { scale := 2 ^ (1076 : Nat)
    low := (if fraction = 0 && 1 < field then 4 * mantissa - 1 else 4 * mantissa - 2) * quarter
    value := 4 * mantissa * quarter
    high := (4 * mantissa + 2) * quarter
    closed := mantissa % 2 = 0 }

/-- Holds `n` times `unit`. -/
def holds (r : Rounding) (unit n : Nat) : Bool :=
  if r.closed then r.low ≤ n * unit && n * unit ≤ r.high else r.low < n * unit && n * unit < r.high

/-- The multiple of `unit` among the reals of `r` that is nearest to the number, an even one of two. -/
def multiple? (r : Rounding) (unit : Nat) : Option Nat :=
  let below := r.value / unit
  match r.holds unit below, r.holds unit (below + 1) with
  | false, false => none
  | true, false => some below
  | false, true => some (below + 1)
  | true, true =>
    let middle := (2 * below + 1) * unit
    if 2 * r.value < middle || (2 * r.value = middle && below % 2 = 0) then some below
    else some (below + 1)

/-- The same reals in units so small that `10 ^ places` of them make one. -/
def finer (r : Rounding) (places : Nat) : Rounding :=
  { r with low := r.low * 10 ^ places, value := r.value * 10 ^ places, high := r.high * 10 ^ places }

/-- The multiple of `10 ^ exponent` nearest to the number, if it is among the reals of `r`. -/
def onGrid? (r : Rounding) (exponent : Int) : Option Nat :=
  (r.finer (-exponent).toNat).multiple? (r.scale * 10 ^ exponent.toNat)

/-- The digits on the coarsest grid that has any, and the exponent of that grid; grids are tried from
`exponent` down, `count` of them. -/
def digits (r : Rounding) : (count : Nat) → (exponent : Int) → Nat × Int
  | 0, exponent => ((r.finer (-exponent).toNat).value / (r.scale * 10 ^ exponent.toNat), exponent)
  | count + 1, exponent =>
    match r.onGrid? exponent with
    | some n => (n, exponent)
    | none => digits r count (exponent - 1)

end Rounding

/-- The text of `digits * 10 ^ exponent`: positional up to 16 digits before the point and 5 zeros
after it, with an exponent beyond. -/
def positional (digits : Nat) (exponent : Int) : List Char :=
  let chars := Nat.toDigits 10 digits
  /- how many digits stand before the point -/
  let whole : Int := chars.length + exponent
  let fill (count : Int) : List Char := List.replicate count.toNat '0'
  if 0 ≤ exponent && whole ≤ 16 then chars ++ fill exponent ++ ['.', '0']
  else if 0 < whole && whole ≤ 16 then chars.take whole.toNat ++ ['.'] ++ chars.drop whole.toNat
  else if -5 < whole && whole ≤ 0 then ['0', '.'] ++ fill (-whole) ++ chars
  else
    let fraction := if chars.length = 1 then [] else '.' :: chars.drop 1
    let sign := if 0 < whole then ['e', '+'] else ['e']
    chars.take 1 ++ fraction ++ sign ++ (toString (whole - 1)).toList

/-- The text of a finite number. Its binary logarithm bounds the grids to try: no number needs more
than 17 digits. -/
def decimalText (x : Float) : String :=
  let bits := x.toBits
  let sign := if bits >>> 63 = 1 then "-" else ""
  let magnitude := bits &&& 0x7FFFFFFFFFFFFFFF
  if magnitude = 0 then sign ++ "0.0"
  else
    let r := Rounding.ofBits magnitude
    let logarithm : Int := (r.value.log2 : Int) - 1075
    let (n, exponent) := r.digits 20 (logarithm * 30103 / 100000 + 1)
    sign ++ String.ofList (positional n exponent)

end Sandshell.Wire
