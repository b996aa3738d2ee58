import Sandshell.Guest.Files
import Sandshell.Guest.State

/-!
# Facts about descriptors and paths

Each call stores a record at an address. Offsets inside a record are added to it unchecked, most of
them behind a check that the whole record lies in memory.
-/

namespace Sandshell.Guest

open scoped Arithmetic

/-- The number of the kind of a standard stream. -/
def streamKind : UInt8 := 2

/-- All rights, which every descriptor has. -/
def allRights : Nat := 2 ^ (30 : Nat) - 1

/-- The name of the directory that the guest starts in; no other descriptor has one. -/
def startName (fd : UInt32) : CallM Bytes := do
  match ← descriptor? fd with
  | some (.directory _ name) =>
    if fd.toNat = DescriptorTable.rootDescriptor then return Bytes.ofString name else throw .badf
  | _ => throw .badf

/-- Stores that a descriptor is a directory, and the length of its name. -/
def fdPrestatGet (fd address : UInt32) : PanicM Guest Unit := do
  let name ← startName fd
  onMemory (GuestMemory.writeWord address.toNat 0)
  -- only the first word has been checked
  let place ← PanicM.sum address 4
  onMemory (GuestMemory.writeWord place.toNat (← word name.length))

/-- Stores the name of the directory that the guest starts in. -/
def fdPrestatDirName (fd address length : UInt32) : CallM Unit := do
  let name ← startName fd
  if length.toNat < name.length then throw .nametoolong
  onMemory (GuestMemory.write address.toNat name)

/-- Stores a record of kind, flags and rights. -/
def writeFdstat (address : UInt32) (kind : UInt8) (append : Bool) : PanicM GuestMemory Unit := do
  GuestMemory.fill address.toNat 24 0
  GuestMemory.write address.toNat [kind]
  GuestMemory.write (← PanicM.sum address 2).toNat
    (Bytes.littleEndian 2 (if append then 1 else 0))
  GuestMemory.writeLong (← PanicM.sum address 8).toNat allRights
  GuestMemory.writeLong (← PanicM.sum address 16).toNat allRights

/-- Stores kind, flags and rights of a descriptor. -/
def fdFdstatGet (fd address : UInt32) : PanicM Guest Unit := do
  match ← descriptor? fd with
  | some (.directory ..) => onMemory (writeFdstat address EntryKind.directory.number false)
  | some (.file _ _ append) => onMemory (writeFdstat address EntryKind.file.number append)
  | none =>
    if isStream fd then onMemory (writeFdstat address streamKind false)
    else throw (.errno .badf)

/-- Stores a record of inode number, kind, one link and size. -/
def writeFilestat (address : UInt32) (kind : UInt8) (number : Nat) (size : Nat) :
    PanicM GuestMemory Unit := do
  GuestMemory.fill address.toNat 64 0
  GuestMemory.writeLong (← PanicM.sum address 8).toNat number
  GuestMemory.write (← PanicM.sum address 16).toNat [kind]
  GuestMemory.writeLong (← PanicM.sum address 24).toNat 1
  GuestMemory.writeLong (← PanicM.sum address 32).toNat size

/-- Stores inode number, kind and size of what a path stands for. -/
def writePathFilestat (address : UInt32) (kind : EntryKind) (path : String) :
    PanicM Guest Unit := do
  let size := (← get).files.fileSize path
  onMemory (writeFilestat address kind.number (inode path).toNat size)

/-- Stores kind and size of a descriptor. -/
def fdFilestatGet (fd address : UInt32) : PanicM Guest Unit := do
  match ← descriptor? fd with
  | some (.directory path _) => writePathFilestat address .directory path
  | some (.file path _ _) => writePathFilestat address .file path
  | none =>
    if isStream fd then onMemory (writeFilestat address streamKind 0 0)
    else throw (.errno .badf)

/-- Stores kind and size of what stands at a path. -/
def pathFilestatGet (fd path length address : UInt32) : PanicM Guest Unit := do
  let resolved ← resolve fd path length
  match (← get).files.kind? resolved with
  | some kind => writePathFilestat address kind resolved
  | none => throw (.errno .noent)

end Sandshell.Guest
