import Sandshell.Guest.State

/-!
# Arguments, environment, time and chance
-/

namespace Sandshell.Guest

open scoped Arithmetic

/-- Stores the number of texts and the bytes that they take, each with a zero byte after it. -/
def textSizes (texts : List String) (count size : UInt32) : CallM Unit := do
  onMemory (GuestMemory.writeWord count.toNat (← word texts.length))
  onMemory (GuestMemory.writeWord size.toNat
    (← word (texts.map fun s => s.utf8ByteSize + 1).sum))

/-- Stores number and size of the arguments. -/
def argsSizesGet (count size : UInt32) : CallM Unit := do
  textSizes (← get).args count size

/-- Stores the arguments and their addresses. -/
def argsGet (addresses buffer : UInt32) : PanicM Guest Unit := do
  onMemory (GuestMemory.writeTexts addresses.toNat buffer (← get).args)

/-- Stores number and size of the variables. -/
def environSizesGet (count size : UInt32) : CallM Unit := do
  textSizes (← get).env count size

/-- Stores the variables and their addresses. -/
def environGet (addresses buffer : UInt32) : PanicM Guest Unit := do
  onMemory (GuestMemory.writeTexts addresses.toNat buffer (← get).env)

/-- Stores the time of one of the four clocks. -/
def clockTimeGet (clock address : UInt32) : CallM Unit := do
  if 3 < clock then throw .inval
  onMemory (GuestMemory.writeLong address.toNat (← get).surroundings.clock)

/-- Fills an area with random bytes. -/
def randomGet (buffer length : UInt32) : CallM Unit := do
  onMemory (GuestMemory.check buffer.toNat length.toNat)
  let g ← get
  let bytes := (List.range length.toNat).map fun i => g.surroundings.random (g.drawn + i)
  onMemory (GuestMemory.write buffer.toNat bytes)
  modify fun g => { g with drawn := g.drawn + length.toNat }

end Sandshell.Guest
