import Sandshell.Guest.Descriptor
import Sandshell.Guest.Files
import Sandshell.Guest.Memory
import Sandshell.Output
import Sandshell.Shell.Delegate

/-!
# State of a guest

All that the system calls of one run see and change.
-/

namespace Sandshell

open scoped Arithmetic

/-- What comes from outside a run: the time, and random bytes by how many came before. -/
structure Surroundings where
  /-- Nanoseconds since the start of 1970. -/
  clock : Nat := 0
  random : Nat → UInt8 := fun _ => 0

/-- A running guest. -/
structure Guest where
  surroundings : Surroundings
  args : List String
  /-- Variables as `NAME=VALUE`. -/
  env : List String
  memory : GuestMemory
  /-- What is left of the input. -/
  stdin : Bytes
  stdout : Capture
  stderr : Capture
  files : Tree
  descriptors : DescriptorTable
  /-- The longest file that the guest may make. -/
  maxFile : Nat
  /-- How many random bytes have been drawn. -/
  drawn : Nat := 0
  /-- Works on a host directory; streams then refuse what does not fit, and a write takes one
  buffer. -/
  mounted : Bool := false

/-- A system call; what it did before failing stays done. -/
abbrev CallM := ExceptT Errno (StateM Guest)

namespace Guest

variable {α : Type}

/-- A step on the memory of the guest. -/
def onMemory {ε : Type} (step : ExceptT ε (StateM GuestMemory) α) : ExceptT ε (StateM Guest) α :=
  fun g =>
    let (result, memory) := step g.memory
    (result, { g with memory })

/-- A change of the files of the guest. -/
def updateFiles (change : Tree → Except Errno Tree) : CallM Unit := do
  match change (← get).files with
  | .ok files => modify fun g => { g with files }
  | .error e => throw e

/-- What a descriptor stands for. -/
def descriptor? (fd : UInt32) : CallM (Option Descriptor) :=
  return (← get).descriptors.get? fd.toNat

/-- One of the three standard streams. -/
def isStream (fd : UInt32) : Bool := fd ≤ 2

/-- A number that fits into 32 bits. -/
def word (n : Nat) : CallM UInt32 :=
  if n < 2 ^ (32 : Nat) then return UInt32.ofNat n else throw .overflow

/-- Where the path in an area of memory leads from an open directory. -/
def resolve (fd path length : UInt32) : CallM String := do
  let text ← onMemory (GuestMemory.readText path.toNat length.toNat)
  match (← get).descriptors.resolve fd.toNat text with
  | .ok resolved => return resolved
  | .error e => throw e

end Guest

end Sandshell
