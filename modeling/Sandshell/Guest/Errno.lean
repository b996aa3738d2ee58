/-!
# Error numbers

What a system call answers when it fails, and how it can stop without an answer.
-/

namespace Sandshell

/-- Why a system call fails. -/
inductive Errno where
  | acces
  | badf
  | exist
  | fault
  | fbig
  | ilseq
  | inval
  | io
  | isdir
  | nametoolong
  | noent
  | nosys
  | notdir
  | overflow
  | spipe
deriving DecidableEq, Repr, Inhabited

/-- The number that a guest sees; zero stands for success. -/
def Errno.number : Errno → Nat
  | .acces => 2
  | .badf => 8
  | .exist => 20
  | .fault => 21
  | .fbig => 22
  | .ilseq => 25
  | .inval => 28
  | .io => 29
  | .isdir => 31
  | .nametoolong => 37
  | .noent => 44
  | .nosys => 52
  | .notdir => 54
  | .overflow => 61
  | .spipe => 70

/-- Why a call stops that adds addresses unchecked. -/
inductive Stop where
  /-- It fails with an error number. -/
  | errno (e : Errno)
  /-- A sum does not fit into 32 bits: the engine itself panics, and nothing is answered. -/
  | panicked
deriving DecidableEq, Repr, Inhabited

end Sandshell
