import Sandshell.Guest.Call.Path
import Sandshell.Guest.Call.Process
import Sandshell.Guest.Call.Stat
import Sandshell.Guest.Call.Stream

/-!
# System calls

The calls that a guest can make, with their arguments, and what becomes of the guest.
-/

namespace Sandshell

/-- A system call. Arguments are numbers of 32 bits but for offsets. -/
inductive SystemCall where
  | argsSizesGet (count size : UInt32)
  | argsGet (addresses buffer : UInt32)
  | environSizesGet (count size : UInt32)
  | environGet (addresses buffer : UInt32)
  | procExit (code : Int)
  | schedYield
  | clockTimeGet (clock address : UInt32)
  | randomGet (buffer length : UInt32)
  | fdWrite (fd buffers count written : UInt32)
  | fdRead (fd buffers count read : UInt32)
  | fdSeek (fd : UInt32) (delta : Int) (whence offset : UInt32)
  | fdTell (fd offset : UInt32)
  | fdClose (fd : UInt32)
  | fdPrestatGet (fd address : UInt32)
  | fdPrestatDirName (fd address length : UInt32)
  | fdFdstatGet (fd address : UInt32)
  | fdFilestatGet (fd address : UInt32)
  | fdReaddir (fd buffer length : UInt32) (cookie : Nat) (used : UInt32)
  | pathOpen (fd path length openFlags fdFlags address : UInt32)
  | pathFilestatGet (fd path length address : UInt32)
  | pathUnlinkFile (fd path length : UInt32)
  | pathCreateDirectory (fd path length : UInt32)
  /-- A call that exists but does nothing here. -/
  | unimplemented (name : String)
deriving DecidableEq, Repr, Inhabited

/-- How a run ends. -/
inductive Ending where
  | returned
  | exited (code : Int)
  | trapped (message : String)
  /-- Open flags without a meaning end the run at once. -/
  | malformedFlags (flags : Nat)
  /-- The engine panics. -/
  | panicked
deriving DecidableEq, Repr, Inhabited

/-- The report on a failure that has no message of its own. -/
def backtrace : String :=
  "error while executing at wasm backtrace:\n    0: <unknown>!<wasm function>"

namespace SystemCall

/-- Needs no memory. -/
def isMemoryless : SystemCall → Bool
  | .schedYield | .fdClose _ => true
  | _ => false

/-- What a call does that answers with an error number. -/
def answer : SystemCall → PanicM Guest Unit
  | .argsSizesGet count size => Guest.argsSizesGet count size
  | .argsGet addresses buffer => Guest.argsGet addresses buffer
  | .environSizesGet count size => Guest.environSizesGet count size
  | .environGet addresses buffer => Guest.environGet addresses buffer
  | .clockTimeGet clock address => Guest.clockTimeGet clock address
  | .randomGet buffer length => Guest.randomGet buffer length
  | .fdWrite fd buffers count written => Guest.fdWrite fd buffers count written
  | .fdRead fd buffers count read => Guest.fdRead fd buffers count read
  | .fdSeek fd delta whence offset => Guest.fdSeek fd delta whence offset
  | .fdTell fd offset => Guest.fdTell fd offset
  | .fdClose fd => Guest.fdClose fd
  | .fdPrestatGet fd address => Guest.fdPrestatGet fd address
  | .fdPrestatDirName fd address length => Guest.fdPrestatDirName fd address length
  | .fdFdstatGet fd address => Guest.fdFdstatGet fd address
  | .fdFilestatGet fd address => Guest.fdFilestatGet fd address
  | .fdReaddir fd buffer length cookie used => Guest.fdReaddir fd buffer length cookie used
  | .pathOpen fd path length openFlags fdFlags address =>
    Guest.pathOpen fd path length openFlags fdFlags address
  | .pathFilestatGet fd path length address => Guest.pathFilestatGet fd path length address
  | .pathUnlinkFile fd path length => Guest.pathUnlinkFile fd path length
  | .pathCreateDirectory fd path length => Guest.pathCreateDirectory fd path length
  | .procExit _ | .schedYield | .unimplemented _ => return

/-- The end that a call puts to a run whatever its arguments point to. -/
def ending? (mounted : Bool) : SystemCall → Option Ending
  | .procExit code =>
    if mounted && !(0 ≤ code && code < 126) then some (.trapped backtrace)
    else some (.exited code)
  | .pathOpen _ _ _ openFlags _ _ =>
    if mounted || (Guest.OpenFlags.ofBits? openFlags).isSome then none
    else some (.malformedFlags openFlags.toNat)
  | .unimplemented _ => some (.trapped backtrace)
  | _ => none

/-- What becomes of a call that stops. On a host directory one that points to nothing, or past the
last address, is a fault of the guest. -/
def stopped (mounted : Bool) : Stop → Except Ending Nat
  | .errno e => if mounted && e = .fault then .error (.trapped backtrace) else .ok e.number
  | .panicked => .error (if mounted then .trapped backtrace else .panicked)

/-- Makes a call: its end of the run, or the error number that it answers. `memory` tells whether
the guest shows its memory; without it there is nothing to point to. -/
def run (memory : Bool) (call : SystemCall) : StateM Guest (Except Ending Nat) := do
  let mounted := (← get).mounted
  if mounted && !memory then return .error (.trapped backtrace)
  match call.ending? mounted with
  | some ending => return .error ending
  | none =>
    -- no argument of such a call can be read or stored
    if !memory && !call.isMemoryless then return .ok Errno.fault.number
    match ← call.answer.run with
    | .ok () => return .ok 0
    | .error stop => return stopped mounted stop

end SystemCall

end Sandshell
