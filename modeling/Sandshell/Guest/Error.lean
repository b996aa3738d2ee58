/-!
# Ceilings and failed runs

What a guest program may use, and why it is refused or its run is given up.
-/

namespace Sandshell

/-- Ceilings for the memory of a guest and for the files that it writes. -/
structure EngineConfig where
  maxMemory : Nat := 64 * 1024 * 1024
  maxFile : Nat := 64 * 1024 * 1024
deriving DecidableEq, Repr, Inhabited

/-- Why a guest program does not run to an exit code. -/
inductive EngineError where
  | invalidModule (reason : String)
  | missingExport (name : String)
  | unsupported (what : String)
  | invalidPath (path : String)
  | hostDirectory (what : String)
  | invalidOpenFlags (flags : Nat)
  | runtime (what : String)
  /-- A sum of addresses did not fit. The engine does not report this: it panics, and no result comes
  of the request. -/
  | panicked
deriving DecidableEq, Repr, Inhabited

/-- A number in lower case hexadecimal after `0x`. -/
def hexadecimal (n : Nat) : String :=
  "0x" ++ String.ofList (Nat.toDigits 16 n)

/-- The wording of a failed run. -/
def EngineError.message : EngineError → String
  | .invalidModule reason => "invalid module: " ++ reason
  | .missingExport name => "module does not export \x60" ++ name ++ "\x60"
  | .unsupported what => "unsupported execution: " ++ what
  | .invalidPath path => "invalid path: " ++ path
  | .hostDirectory what => "host directory: " ++ what
  | .invalidOpenFlags flags => "malformed open flags: " ++ hexadecimal flags
  | .runtime what => "runtime error: " ++ what
  | .panicked => "attempt to add with overflow"

end Sandshell
