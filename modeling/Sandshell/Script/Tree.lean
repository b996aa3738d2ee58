import Sandshell.Script.Word

/-!
# Scripts as trees

A script is a list of sequences, a sequence is a chain of pipelines, and a pipeline is a list of
commands joined by pipes. A command is a list of words or a group in parentheses, with redirections.
-/

namespace Sandshell

/-- One of the two output streams of a command. -/
inductive OutputStream where
  | out
  | err
deriving DecidableEq, Repr, Inhabited

/-- What becomes of a file that output is directed to. -/
inductive OpenMode where
  | truncate
  | append
deriving DecidableEq, Repr, Inhabited

/-- Where a stream of a command comes from or goes to. -/
inductive Redirection where
  /-- Input from a file. -/
  | input (target : Word)
  /-- An output stream to a file. -/
  | output (stream : OutputStream) (mode : OpenMode) (target : Word)
  /-- The error stream to wherever the output stream goes at this point. -/
  | errorsToOutput
deriving DecidableEq, Repr, Inhabited

/-- What joins two pipelines of a sequence. -/
inductive Connector where
  | andThen
  | orElse
deriving DecidableEq, Repr, Inhabited

/-- Whether the next pipeline runs after the given exit code. -/
def Connector.admits : Connector → Int → Bool
  | .andThen, code => code = 0
  | .orElse, code => code ≠ 0

mutual

/-- One stage of a pipeline. -/
inductive Command where
  | simple (words : List Word) (redirections : List Redirection)
  | group (body : List Sequence) (redirections : List Redirection)

/-- A pipeline and the guarded pipelines after it. -/
inductive Sequence where
  | chain (head : List Command) (tail : List (Connector × List Command))

end

/-- Commands joined by pipes. -/
abbrev Pipeline := List Command

/-- Sequences in the order in which they run. -/
abbrev Script := List Sequence

deriving instance Repr for Command, Sequence
deriving instance BEq for Command, Sequence

instance : Inhabited Command := ⟨.simple [] []⟩
instance : Inhabited Sequence := ⟨.chain [] []⟩

/-- The redirections of a command. -/
def Command.redirections : Command → List Redirection
  | .simple _ rs => rs
  | .group _ rs => rs

end Sandshell
