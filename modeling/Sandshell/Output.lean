import Sandshell.Text.Utf8

/-!
# Captured output

Output is captured under a ceiling: bytes past it are dropped, and the capture remembers that some
were.
-/

namespace Sandshell

/-- Ceilings for the captured bytes of the two output streams. -/
structure OutputLimits where
  maxStdout : Nat := 1024 * 1024
  maxStderr : Nat := 1024 * 1024
deriving DecidableEq, Repr, Inhabited

/-- The same ceiling for both streams. -/
def OutputLimits.uniform (limit : Nat) : OutputLimits := ⟨limit, limit⟩

/-- The captured bytes of one stream. -/
structure Capture where
  limit : Nat
  bytes : Bytes
  truncated : Bool
deriving DecidableEq, Repr

namespace Capture

/-- Nothing captured yet. -/
def empty (limit : Nat) : Capture := ⟨limit, [], false⟩

/-- Keeps as much of `data` as fits. -/
def write (c : Capture) (data : Bytes) : Capture :=
  let room := c.limit - c.bytes.length
  { c with
    bytes := c.bytes ++ data.take room
    truncated := c.truncated || decide (room < data.length) }

/-- What remains of `data` under a ceiling. -/
def ofBytes (limit : Nat) (data : Bytes) : Capture :=
  (empty limit).write data

end Capture

end Sandshell
