import Sandshell.Guest.Files
import Sandshell.Guest.State

/-!
# Opening, removing and listing
-/

namespace Sandshell.Guest

open scoped Arithmetic

/-- What a guest asks for when it opens a path. -/
structure OpenFlags where
  create : Bool
  directory : Bool
  exclusive : Bool
  truncate : Bool
deriving DecidableEq, Repr, Inhabited

/-- The flags that the four lowest bits spell; other bits have no meaning. -/
def OpenFlags.ofBits? (bits : UInt32) : Option OpenFlags :=
  let n := bits.toNat
  if n < 16 then some ⟨n.testBit 0, n.testBit 1, n.testBit 2, n.testBit 3⟩ else none

/-- What opening a path gives, with the files after it. -/
def openEntry (files : Tree) (path : String) (flags : OpenFlags) (append : Bool) :
    Except Errno (Descriptor × Tree) :=
  match files.kind? path with
  | some kind =>
    if flags.create && flags.exclusive then .error .exist
    else
      match kind with
      | .directory =>
        if flags.create || flags.truncate then .error .isdir
        else .ok (.directory path path, files)
      | .file =>
        if flags.directory then .error .notdir
        else .ok (.file path 0 append, if flags.truncate then files.setFile path [] else files)
  | none =>
    if !flags.create then .error .noent
    -- directories are made by a call of their own
    else if flags.directory then .error .inval
    else do return (.file path 0 append, ← files.createFile path)

/-- Opens a path and stores the new descriptor. -/
def pathOpen (fd path length openFlags fdFlags address : UInt32) : CallM Unit := do
  onMemory (GuestMemory.check address.toNat 4)
  let resolved ← resolve fd path length
  match OpenFlags.ofBits? openFlags with
  | none => throw .inval
  | some flags =>
    if 2 ^ (16 : Nat) ≤ fdFlags.toNat then throw .inval
    let g ← get
    let (descriptor, files) ← openEntry g.files resolved flags (fdFlags.toNat.testBit 0)
    modify fun g => { g with files }
    -- a file that was created or emptied stays so when the table is full
    let (number, descriptors) ← g.descriptors.insert descriptor
    modify fun g => { g with descriptors }
    onMemory (GuestMemory.writeWord address.toNat (UInt32.ofNat number))

/-- Removes a file. -/
def pathUnlinkFile (fd path length : UInt32) : CallM Unit := do
  let resolved ← resolve fd path length
  updateFiles (·.removeFile resolved)

/-- Makes a directory. -/
def pathCreateDirectory (fd path length : UInt32) : CallM Unit := do
  let resolved ← resolve fd path length
  updateFiles (·.makeDirectory resolved)

/-- The record of an entry of a directory: the place of the next one, inode number, length of the
name, kind and name. -/
def direntBytes (directory : String) (entry : DirEntry) (next : Nat) : Bytes :=
  let name := Bytes.ofString entry.name
  Bytes.littleEndian 8 next
    ++ Bytes.littleEndian 8 (inode (Path.join directory entry.name)).toNat
    ++ Bytes.littleEndian 4 name.length ++ [entry.kind.number, 0, 0, 0] ++ name

/-- The records of entries until there is no room; the last one may go past it. The length of a name
has 32 bits. -/
def records (directory : String) : (room : Nat) → List (DirEntry × Nat) → Except Errno Bytes
  | _, [] => .ok []
  | room, (entry, next) :: rest =>
    if room = 0 then .ok []
    else if 2 ^ (32 : Nat) ≤ (Bytes.ofString entry.name).length then .error .overflow
    else
      let record := direntBytes directory entry next
      return record ++ (← records directory (room - record.length) rest)

/-- The records of a directory from the place `cookie` on, cut at the length of the buffer. -/
def listing (files : Tree) (directory : String) (cookie room : Nat) : Except Errno Bytes :=
  (records directory room (((files.children directory).zipIdx 1).drop cookie)).map (·.take room)

/-- Stores the records of a directory and how many bytes they take. -/
def fdReaddir (fd buffer length : UInt32) (cookie : Nat) (used : UInt32) : CallM Unit := do
  match ← descriptor? fd with
  | none => throw .badf
  | some (.file ..) => throw .notdir
  | some (.directory directory _) =>
    let data ← listing (← get).files directory cookie length.toNat
    onMemory (GuestMemory.write buffer.toNat data)
    onMemory (GuestMemory.writeWord used.toNat (← word data.length))

end Sandshell.Guest
