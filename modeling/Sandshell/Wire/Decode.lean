import Std.Data.ExtTreeMap
import Sandshell.Wire.Value

/-!
# Reading exchanged values

Decoders for plain values, and the reading of records. A record is given by its fields: from a
record by their names, or from a list by their order. Every field is checked when it is met, so
that the first bad one is reported.
-/

namespace Sandshell.Wire

open scoped Arithmetic

/-- Why a value cannot be read. -/
inductive WireError where
  | invalidType (got wanted : String)
  | invalidValue (got wanted : String)
  | invalidLength (length : Nat) (wanted : String)
  | missingField (name : String)
  | duplicateField (name : String)
  | unknownVariant (name wanted : String)
  | noVariant (type : String)
deriving DecidableEq, Repr, Inhabited

/-- The wording of a value that cannot be read. -/
def WireError.message : WireError → String
  | .invalidType got wanted => "invalid type: " ++ got ++ ", expected " ++ wanted
  | .invalidValue got wanted => "invalid value: " ++ got ++ ", expected " ++ wanted
  | .invalidLength length wanted =>
    "invalid length " ++ toString length ++ ", expected " ++ wanted
  | .missingField name => "missing field \x60" ++ name ++ "\x60"
  | .duplicateField name => "duplicate field \x60" ++ name ++ "\x60"
  | .unknownVariant name wanted =>
    "unknown variant \x60" ++ name ++ "\x60, expected " ++ wanted
  | .noVariant type => "data did not match any variant of untagged enum " ++ type

/-- Reads a value. -/
abbrev Decoder (α : Type) := Value → Except WireError α

namespace Decode

/-- Refuses a value of another kind. -/
def refuse {α : Type} (wanted : String) (v : Value) : Except WireError α :=
  .error (.invalidType v.description wanted)

/-- A text. -/
def text : Decoder String
  | .text s => .ok s
  | v => refuse "a string" v

/-- A truth value. -/
def bool : Decoder Bool
  | .bool b => .ok b
  | v => refuse "a boolean" v

/-- An integer from `low` up to but not including `high`. -/
def integer (low high : Int) (wanted : String) : Decoder Int
  | .integer n =>
    if low ≤ n ∧ n < high then .ok n
    else .error (.invalidValue (Value.description (.integer n)) wanted)
  | v => refuse wanted v

/-- A number of at most `bits` bits. -/
def natural (bits : Nat) (wanted : String) : Decoder Nat :=
  fun v => (integer 0 (2 ^ bits) wanted v).map Int.toNat

/-- A size in memory. -/
def size : Decoder Nat := natural 64 "usize"

/-- A number of 64 bits. -/
def word64 : Decoder Nat := natural 64 "u64"

/-- An exit code. -/
def exitCode : Decoder Int := integer (-(2 ^ (31 : Nat))) (2 ^ (31 : Nat)) "i32"

/-- A byte. -/
def byte : Decoder UInt8 :=
  fun v => (natural 8 "u8" v).map UInt8.ofNat

/-- A list. -/
def list {α : Type} (item : Decoder α) : Decoder (List α)
  | .list items => items.mapM item
  | v => refuse "a sequence" v

/-- A map from texts. -/
def map {α : Type} (item : Decoder α) : Decoder (Std.ExtTreeMap String α compare)
  | .record fields => do
    let entries ← fields.mapM fun (key, v) => return (key, ← item v)
    return entries.foldl (fun m (key, a) => m.insert key a) ∅
  | v => refuse "a map" v

/-- A value that may be null. -/
def optional {α : Type} (item : Decoder α) : Decoder (Option α)
  | .null => .ok none
  | v => (item v).map some

end Decode

/-- A field of a record. -/
structure Field where
  name : String
  aliases : List String := []
  required : Bool := true
  check : Decoder Unit

/-- A field that has to be there. -/
def Field.of {α : Type} (name : String) (decode : Decoder α) (aliases : List String) : Field where
  name
  aliases
  check v := (decode v).map fun _ => ()

/-- A field that has a default. -/
def Field.withDefault {α : Type} (name : String) (decode : Decoder α) (aliases : List String) :
    Field :=
  { Field.of name decode aliases with required := false }

/-- The checked values of a record by the names of their fields. -/
abbrev Slots := List (String × Value)

namespace Slots

/-- Reads the fields that entries name; others are passed over. -/
def ofEntries (fields : List Field) (read : Slots) : List (String × Value) → Except WireError Slots
  | [] => .ok read
  | (key, v) :: rest =>
    match fields.find? fun f => key = f.name || f.aliases.contains key with
    | none => ofEntries fields read rest
    | some f =>
      if (read.lookup f.name).isSome then .error (.duplicateField f.name)
      else do
        f.check v
        ofEntries fields ((f.name, v) :: read) rest

/-- Reads fields in their order; `index` of them have been read. -/
def ofItems (type : String) (total index : Nat) : List Field → List Value → Except WireError Slots
  | [], [] => .ok []
  | [], rest => .error (.invalidLength (index + rest.length) "fewer elements in array")
  | f :: fields, [] =>
    if f.required then
      .error (.invalidLength index
        ("struct " ++ type ++ " with " ++ toString total
          ++ (if total = 1 then " element" else " elements")))
    else ofItems type total (index + 1) fields []
  | f :: fields, v :: rest => do
    f.check v
    return (f.name, v) :: (← ofItems type total (index + 1) fields rest)

/-- Reads a record. -/
def read (type : String) (fields : List Field) : Decoder Slots
  | .record entries => do
    let slots ← ofEntries fields [] entries
    match fields.find? fun f => f.required && (slots.lookup f.name).isNone with
    | some f => throw (.missingField f.name)
    | none => return slots
  | .list items => ofItems type fields.length 0 fields items
  | v => Decode.refuse ("struct " ++ type) v

/-- The value of a field. -/
def get {α : Type} (slots : Slots) (name : String) (decode : Decoder α) : Except WireError α :=
  match slots.lookup name with
  | some v => decode v
  | none => .error (.missingField name)

/-- The value of a field, or its default. -/
def getD {α : Type} (slots : Slots) (name : String) (decode : Decoder α) (default : α) :
    Except WireError α :=
  match slots.lookup name with
  | some v => decode v
  | none => .ok default

end Slots

end Sandshell.Wire
