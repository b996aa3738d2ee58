import Sandshell.Guest.State

/-!
# Reading and writing

Calls on the standard streams and on open files.
-/

namespace Sandshell.Guest

open scoped Arithmetic

/-- The bytes of buffers, one after the other. -/
def gather : List (UInt32 × UInt32) → CallM Bytes
  | [] => return []
  | (address, length) :: rest => do
    let data ← onMemory (GuestMemory.slice address.toNat length.toNat)
    return data ++ (← gather rest)

/-- Stores data in buffers until it is used up. -/
def scatter : List (UInt32 × UInt32) → Bytes → CallM Unit
  | [], _ => return
  | (address, length) :: rest, data => do
    if data.isEmpty then return
    onMemory (GuestMemory.write address.toNat (data.take length.toNat))
    scatter rest (data.drop length.toNat)

/-- Old contents with data put at an offset; a gap is filled with zeros. -/
def overwrite (old : Bytes) (start : Nat) (data : Bytes) : Bytes :=
  old.take start ++ List.replicate (start - old.length) 0 ++ data ++ old.drop (start + data.length)

/-- Writes to an open file, and moves in it. -/
def writeFile (fd : UInt32) (data : Bytes) : CallM Unit := do
  match ← descriptor? fd with
  | some (.file path offset append) =>
    let g ← get
    match g.files.files[path]? with
    | none => throw .badf
    | some old =>
      let start := if append then old.length else offset
      let finish := start + data.length
      if 2 ^ (64 : Nat) ≤ finish then throw .overflow
      if g.maxFile < finish then throw .fbig
      modify fun g => { g with
        files := g.files.setFile path (overwrite old start data)
        descriptors := (g.descriptors.seek? fd.toNat finish).getD g.descriptors }
  | _ => throw .badf

/-- Writes to the output stream, the error stream or an open file. On a host directory a stream
that is full is an error. -/
def writeData (fd : UInt32) (data : Bytes) : CallM Unit := do
  let g ← get
  let full (c : Capture) : Bool := g.mounted && c.limit < c.bytes.length + data.length
  if fd = 0 then throw .badf
  else if fd = 1 then
    modify fun g => { g with stdout := g.stdout.write data }
    if full g.stdout then throw .io
  else if fd = 2 then
    modify fun g => { g with stderr := g.stderr.write data }
    if full g.stderr then throw .io
  else writeFile fd data

/-- The buffers that one write takes. -/
def buffersToWrite (mounted : Bool) (buffers : List (UInt32 × UInt32)) :
    List (UInt32 × UInt32) :=
  if mounted then (buffers.filter fun (_, length) => length ≠ 0).take 1 else buffers

/-- Writes the data of buffers and stores how many bytes were taken. -/
def fdWrite (fd buffers count written : UInt32) : CallM Unit := do
  let buffers ← onMemory (GuestMemory.readBuffers buffers.toNat count.toNat)
  let data ← gather (buffersToWrite (← get).mounted buffers)
  writeData fd data
  onMemory (GuestMemory.writeWord written.toNat (← word data.length))

/-- Takes up to `most` bytes from the input. -/
def readInput (most : Nat) : CallM Bytes := do
  let data := (← get).stdin.take most
  modify fun g => { g with stdin := g.stdin.drop most }
  return data

/-- Reads up to `most` bytes from an open file, and moves in it. -/
def readFile (fd : UInt32) (most : Nat) : CallM Bytes := do
  match ← descriptor? fd with
  | none => throw .badf
  | some (.directory ..) => throw .isdir
  | some (.file path offset _) =>
    match (← get).files.files[path]? with
    | none => throw .badf
    | some contents =>
      let data := (contents.drop offset).take most
      modify fun g => { g with
        descriptors := (g.descriptors.seek? fd.toNat (offset + data.length)).getD g.descriptors }
      return data

/-- Reads into buffers and stores how many bytes were read. -/
def fdRead (fd buffers count read : UInt32) : CallM Unit := do
  let buffers ← onMemory (GuestMemory.readBuffers buffers.toNat count.toNat)
  let room := (buffers.map fun (_, length) => length.toNat).sum
  let data ←
    if fd = 0 then readInput room
    else if isStream fd then throw .badf
    else readFile fd room
  scatter buffers data
  onMemory (GuestMemory.writeWord read.toNat (← word data.length))

/-- The failure of a call for open files on something else. -/
def notAFile (fd : UInt32) (found : Option Descriptor) : Errno :=
  if found.isNone && isStream fd then .spipe else .badf

/-- Moves in an open file to a place that is not before its start, and stores the new offset. -/
def seekTo (fd offset : UInt32) (there : Int) : CallM Unit := do
  if there < 0 then throw .inval
  if 2 ^ (64 : Nat) ≤ there then throw .overflow
  modify fun g => { g with
    descriptors := (g.descriptors.seek? fd.toNat there.toNat).getD g.descriptors }
  onMemory (GuestMemory.writeLong offset.toNat there.toNat)

/-- Moves in an open file, from its start, from where it is, or from its end. -/
def fdSeek (fd : UInt32) (delta : Int) (whence offset : UInt32) : CallM Unit := do
  match ← descriptor? fd with
  | some (.file path here _) =>
    let base : Nat ←
      if whence = 0 then pure 0
      else if whence = 1 then pure here
      else if whence = 2 then pure ((← get).files.fileSize path)
      else throw .inval
    seekTo fd offset (base + delta)
  | found => throw (notAFile fd found)

/-- Stores the offset in an open file. -/
def fdTell (fd offset : UInt32) : CallM Unit := do
  match ← descriptor? fd with
  | some (.file _ here _) => onMemory (GuestMemory.writeLong offset.toNat here)
  | found => throw (notAFile fd found)

/-- Closes a descriptor; the standard streams stay open. -/
def fdClose (fd : UInt32) : CallM Unit := do
  if isStream fd then return
  if (← descriptor? fd).isNone then throw .badf
  modify fun g => { g with descriptors := g.descriptors.remove fd.toNat }

end Sandshell.Guest
