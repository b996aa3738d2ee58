import Std.Data.ExtTreeMap
import Sandshell.Arithmetic
import Sandshell.Guest.Errno
import Sandshell.Text.Utf8

/-!
# Guest memory

Linear memory of a guest. Only bytes that were written are stored; all others are zero. Every
access is checked against the size, and an area that is not wholly inside is a fault. Addresses have
32 bits; where one is added to and nothing checks the sum, the engine panics if it does not fit.
-/

namespace Sandshell

open scoped Arithmetic

namespace Bytes

/-- The `count` lowest bytes of a number, the lowest first. -/
def littleEndian : (count : Nat) → Nat → Bytes
  | 0, _ => []
  | count + 1, n => UInt8.ofNat (n % 256) :: littleEndian count (n / 256)

/-- The number that bytes spell, the lowest first. -/
def toNumber : Bytes → Nat
  | [] => 0
  | b :: rest => b.toNat + 256 * toNumber rest

end Bytes

/-- Linear memory. -/
structure GuestMemory where
  size : Nat
  cells : Std.ExtTreeMap Nat UInt8 compare

/-- A step on memory; what it wrote before failing stays written. -/
abbrev MemoryM := ExceptT Errno (StateM GuestMemory)

/-- A step that may panic. -/
abbrev PanicM (σ : Type) := ExceptT Stop (StateM σ)

namespace PanicM

variable {σ α : Type}

/-- A step that does not panic, among those that may. -/
def ofStep (step : ExceptT Errno (StateM σ) α) : PanicM σ α :=
  fun s =>
    let (result, after) := step s
    (result.mapError .errno, after)

instance : MonadLift (ExceptT Errno (StateM σ)) (PanicM σ) := ⟨ofStep⟩

/-- A sum of 32 bits that nothing checks. -/
def sum (a b : UInt32) : PanicM σ UInt32 :=
  if a.toNat + b.toNat < 2 ^ (32 : Nat) then return a + b else throw .panicked

end PanicM

namespace GuestMemory

/-- Memory of zeros. -/
def zeroed (size : Nat) : GuestMemory := ⟨size, ∅⟩

/-- The byte at an address. -/
def byte (m : GuestMemory) (address : Nat) : UInt8 :=
  m.cells.getD address 0

/-- Lies wholly inside the memory. -/
def holds (m : GuestMemory) (start length : Nat) : Bool :=
  start + length ≤ m.size

/-- The bytes of an area. -/
def area (m : GuestMemory) (start : Nat) : (length : Nat) → Bytes
  | 0 => []
  | length + 1 => m.byte start :: area m (start + 1) length

/-- Stores bytes without a check. -/
def store (m : GuestMemory) (start : Nat) : Bytes → GuestMemory
  | [] => m
  | b :: rest => store { m with cells := m.cells.insert start b } (start + 1) rest

/-- The bytes of an area that lies inside. -/
def slice (start length : Nat) : MemoryM Bytes := do
  let m ← get
  if m.holds start length then return m.area start length else throw .fault

/-- Checks that an area lies inside. -/
def check (start length : Nat) : MemoryM Unit := do
  if !(← get).holds start length then throw .fault

/-- Stores bytes in an area that lies inside; its length has 32 bits. -/
def write (start : Nat) (data : Bytes) : MemoryM Unit := do
  if 2 ^ (32 : Nat) ≤ data.length then throw .fault
  check start data.length
  modify fun m => m.store start data

/-- Fills an area that lies inside with one byte. -/
def fill (start length : Nat) (b : UInt8) : MemoryM Unit := do
  check start length
  modify fun m => m.store start (List.replicate length b)

/-- The number of 32 bits at an address. -/
def readWord (start : Nat) : MemoryM UInt32 :=
  return UInt32.ofNat (← slice start 4).toNumber

/-- Stores a number of 32 bits. -/
def writeWord (start : Nat) (n : UInt32) : MemoryM Unit :=
  write start (Bytes.littleEndian 4 n.toNat)

/-- Stores a number of 64 bits. -/
def writeLong (start : Nat) (n : Nat) : MemoryM Unit :=
  write start (Bytes.littleEndian 8 n)

/-- The text of an area. -/
def readText (start length : Nat) : MemoryM String := do
  match (← slice start length).text? with
  | some s => return s
  | none => throw .ilseq

/-- Reads `count` pairs of address and length that stand one after the other. No address can pass
the end of memory, since each pair is checked before the next one. -/
def readBuffers (start : Nat) : (count : Nat) → MemoryM (List (UInt32 × UInt32))
  | 0 => return []
  | count + 1 => do
    let address ← readWord start
    let length ← readWord (start + 4)
    return (address, length) :: (← readBuffers (start + 8) count)

/-- Stores a text with a zero byte after it, and its address at `slot`. Gives the address of the zero
byte. -/
def writeText (slot : Nat) (cursor : UInt32) (s : String) : MemoryM UInt32 := do
  if 2 ^ (32 : Nat) ≤ slot then throw .fault
  let data := Bytes.ofString s
  writeWord slot cursor
  write cursor.toNat data
  let finish := cursor.toNat + data.length
  if 2 ^ (32 : Nat) ≤ finish then throw .fault
  write finish [0]
  return UInt32.ofNat finish

/-- Stores texts one after the other from `cursor` on, and their addresses from `slot` on. Also after
the last text there must be an address that the next one could have. -/
def writeTexts (slot : Nat) (cursor : UInt32) : List String → PanicM GuestMemory Unit
  | [] => return
  | s :: rest => do
    let finish ← writeText slot cursor s
    writeTexts (slot + 4) (← PanicM.sum finish 1) rest

end GuestMemory

end Sandshell
