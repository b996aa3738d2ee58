import Std.Data.ExtTreeMap
import Sandshell.Arithmetic
import Sandshell.Guest.Errno
import Sandshell.Path

/-!
# Descriptors

The table of what a guest has open. Numbers are handed out in ascending order and never used again.
Descriptor 3 is the directory that the guest starts in; no path leads out of that directory.
-/

namespace Sandshell

open scoped Arithmetic

namespace Path

/-- Is the directory or lies below it. -/
def isWithin (directory path : String) : Bool :=
  directory = "" || path = directory || (below? directory path).isSome

end Path

/-- Something open. -/
inductive Descriptor where
  | directory (path name : String)
  | file (path : String) (offset : Nat) (append : Bool)
deriving DecidableEq, Repr, Inhabited

/-- The table of what is open besides the three standard streams. -/
structure DescriptorTable where
  entries : Std.ExtTreeMap Nat Descriptor compare
  next : Nat
  root : String

namespace DescriptorTable

/-- The descriptor of the directory that a guest starts in. -/
def rootDescriptor : Nat := 3

/-- The table with only the root in it, which goes by the name of a dot. -/
def ofRoot (root : String) : DescriptorTable where
  entries := (∅ : Std.ExtTreeMap Nat Descriptor compare).insert rootDescriptor (.directory root ".")
  next := rootDescriptor + 1
  root

/-- What a number stands for. -/
def get? (t : DescriptorTable) (fd : Nat) : Option Descriptor :=
  t.entries[fd]?

/-- Opens something under the next number; numbers have 32 bits. -/
def insert (t : DescriptorTable) (d : Descriptor) : Except Errno (Nat × DescriptorTable) :=
  -- the next number must fit as well
  if t.next + 1 < 2 ^ (32 : Nat) then
    .ok (t.next, { t with entries := t.entries.insert t.next d, next := t.next + 1 })
  else .error .overflow

/-- Closes a descriptor. -/
def remove (t : DescriptorTable) (fd : Nat) : DescriptorTable :=
  { t with entries := t.entries.erase fd }

/-- Moves in an open file; `none` if the descriptor is no file. -/
def seek? (t : DescriptorTable) (fd offset : Nat) : Option DescriptorTable :=
  match t.get? fd with
  | some (.file path _ append) =>
    some { t with entries := t.entries.insert fd (.file path offset append) }
  | _ => none

/-- Where a path leads from an open directory. Paths are relative, without NUL, and do not leave
the root. -/
def resolve (t : DescriptorTable) (fd : Nat) (path : String) : Except Errno String :=
  match t.get? fd with
  | none => .error .badf
  | some (.file ..) => .error .notdir
  | some (.directory base _) =>
    if Path.isAbsolute path || Path.hasNul path then .error .inval
    else
      match Path.follow? ((Path.segments base).filter (· ≠ "")) (Path.segments path) with
      | none => .error .inval
      | some names =>
        -- the way may leave the root as long as it comes back
        let resolved := Path.ofSegments names
        if Path.isWithin t.root resolved then .ok resolved else .error .inval

end DescriptorTable

end Sandshell
