import Sandshell.Guest.SystemCall

/-!
# Guest programs

A guest program is a list of steps on its memory and through system calls. The steps run in order
until they are used up or one of them ends the run.
-/

namespace Sandshell

open scoped Arithmetic

/-- The bytes of one page of memory. -/
def pageSize : Nat := 65536

/-- The most pages that memory can have. -/
def maxPages : Nat := 65536

/-- A fault of the guest itself. -/
inductive Trap where
  | unreachable
  | divisionByZero
  | integerOverflow
  | outOfBounds
  | stackExhausted
  | invalidConversion
  | undefinedElement
  | uninitializedElement
deriving DecidableEq, Repr, Inhabited

/-- The wording of a fault. -/
def Trap.message : Trap → String
  | .unreachable => "wasm trap: wasm \x60unreachable\x60 instruction executed"
  | .divisionByZero => "wasm trap: integer divide by zero"
  | .integerOverflow => "wasm trap: integer overflow"
  | .outOfBounds => "wasm trap: out of bounds memory access"
  | .stackExhausted => "wasm trap: call stack exhausted"
  | .invalidConversion => "wasm trap: invalid conversion to integer"
  | .undefinedElement => "wasm trap: undefined element: out of bounds table access"
  | .uninitializedElement => "wasm trap: uninitialized element"

/-- A step of a program. -/
inductive Step where
  | call (c : SystemCall)
  /-- Stores bytes. -/
  | poke (address : Nat) (data : Bytes)
  /-- Reads bytes. -/
  | peek (address length : Nat)
  /-- Copies four bytes. -/
  | copyWord (target source : Nat)
  /-- Asks for more pages. -/
  | grow (pages : Nat)
  | exit (code : Int)
  /-- Exits with the number that the last call answered. -/
  | exitLast
  /-- Exits with the number at an address. -/
  | exitWord (address : Nat)
  | trap (t : Trap)
deriving DecidableEq, Repr, Inhabited

/-- What a finished step leaves in the log. -/
inductive LogEntry where
  | done
  | errno (number : Nat)
  | bytes (data : Bytes)
  /-- The pages before memory grew, or `none` if it did not. -/
  | pages (before : Option Nat)
deriving DecidableEq, Repr, Inhabited

/-- How much memory a program may have. -/
structure MemoryBounds where
  /-- Pages, as the program declares them. -/
  pages : Nat := maxPages
  /-- Bytes, as the engine grants them. -/
  bytes : Nat
deriving DecidableEq, Repr, Inhabited

/-- A number of 32 bits as a signed one. -/
def signedWord (n : UInt32) : Int :=
  if n.toNat < 2 ^ (31 : Nat) then n.toNat else (n.toNat : Int) - 2 ^ (32 : Nat)

/-- A running program. -/
structure Running where
  guest : Guest
  /-- What the last call answered. -/
  last : Nat := 0
  log : List LogEntry := []

namespace Running

/-- Goes on after a step, with its entry in the log. -/
def finish (r : Running) (entry : LogEntry) : Except Ending LogEntry × Running :=
  (.ok entry, { r with log := r.log ++ [entry] })

/-- A fault. -/
def fault (r : Running) (t : Trap) : Except Ending LogEntry × Running :=
  (.error (.trapped t.message), r)

/-- More pages for the memory. The engine grants them unless they exceed its bounds; no growth at
all is always granted. -/
def grow (bounds : MemoryBounds) (m : GuestMemory) (pages : Nat) : Option GuestMemory :=
  let before := m.size / pageSize
  let after := before + pages
  if after ≤ bounds.pages && after ≤ maxPages
      && (after * pageSize ≤ bounds.bytes || pages = 0) then
    some { m with size := after * pageSize }
  else none

/-- Runs one step. -/
def step (exportsMemory : Bool) (bounds : MemoryBounds) (r : Running) :
    Step → Except Ending LogEntry × Running
  | .call c =>
    match (c.run exportsMemory).run r.guest with
    | (.error ending, guest) => (.error ending, { r with guest })
    | (.ok number, guest) => finish { r with guest, last := number } (.errno number)
  | .poke address data =>
    let m := r.guest.memory
    if m.holds address data.length then
      finish { r with guest := { r.guest with memory := m.store address data } } .done
    else r.fault .outOfBounds
  | .peek address length =>
    let m := r.guest.memory
    if length = 0 then r.finish (.bytes [])
    else if m.holds address length then r.finish (.bytes (m.area address length))
    else r.fault .outOfBounds
  | .copyWord target source =>
    let m := r.guest.memory
    if m.holds source 4 && m.holds target 4 then
      finish { r with guest := { r.guest with memory := m.store target (m.area source 4) } } .done
    else r.fault .outOfBounds
  | .grow pages =>
    let m := r.guest.memory
    match grow bounds m pages with
    | some memory =>
      finish { r with guest := { r.guest with memory } } (.pages (some (m.size / pageSize)))
    | none => r.finish (.pages none)
  | .exit code => exitWith r code
  | .exitLast => exitWith r r.last
  | .exitWord address =>
    let m := r.guest.memory
    if m.holds address 4 then
      exitWith r (signedWord (UInt32.ofNat (m.area address 4).toNumber))
    else r.fault .outOfBounds
  | .trap t => r.fault t
where
  /-- Exits through the system call. -/
  exitWith (r : Running) (code : Int) : Except Ending LogEntry × Running :=
    match ((SystemCall.procExit code).run exportsMemory).run r.guest with
    | (.error ending, guest) => (.error ending, { r with guest })
    | (.ok _, guest) => (.error (.exited code), { r with guest })

/-- Runs steps until one of them ends the run. -/
def steps (exportsMemory : Bool) (bounds : MemoryBounds) (r : Running) :
    List Step → Ending × Running
  | [] => (.returned, r)
  | s :: rest =>
    match step exportsMemory bounds r s with
    | (.error ending, r) => (ending, r)
    | (.ok _, r) => steps exportsMemory bounds r rest

end Running

/-- What a module has under a name that the engine asks for. -/
inductive Export where
  /-- What the engine asks for. -/
  | asExpected
  /-- Something of the same kind but another type, or of another kind. -/
  | otherwise
  | absent
deriving DecidableEq, Repr, Inhabited

/-- A guest program with its declarations. -/
structure GuestProgram where
  steps : List Step := []
  /-- The pages of memory at the start. -/
  pages : Nat := 1
  /-- The most pages that the program allows. -/
  most : Option Nat := none
  memory : Export := .asExpected
  start : Export := .asExpected
  /-- Imports something with a type that it does not have. -/
  mismatched : Bool := false
deriving DecidableEq, Repr, Inhabited

/-- What is given to the engine to run. -/
inductive GuestModule where
  | malformed
  | program (p : GuestProgram)
deriving DecidableEq, Repr, Inhabited

namespace GuestProgram

/-- Declares at most as many pages as there can be, and no fewer than it starts with. -/
def declaresMemory (p : GuestProgram) : Bool :=
  p.pages ≤ maxPages && p.most.all fun most => p.pages ≤ most && most ≤ maxPages

/-- The bounds of the program's memory under a ceiling. -/
def bounds (p : GuestProgram) (ceiling : Nat) : MemoryBounds :=
  { pages := p.most.getD maxPages, bytes := ceiling }

end GuestProgram

end Sandshell
