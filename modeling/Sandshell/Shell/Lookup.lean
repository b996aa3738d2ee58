/-!
# Looking commands up

A name is looked up among the builtins, then with the delegate, then among the utilities.
-/

namespace Sandshell

/-- Commands that see and change the state of the shell. -/
inductive Builtin where
  | colon
  | succeed
  | fail
  | cd
  | pwd
  | exportNames
  | unsetNames
  | setParameters
  | shiftParameters
  | test
  | bracket
  | command
deriving DecidableEq, Repr, Inhabited

/-- The builtin with a name. -/
def Builtin.named? : String → Option Builtin
  | ":" => some .colon
  | "true" => some .succeed
  | "false" => some .fail
  | "cd" => some .cd
  | "pwd" => some .pwd
  | "export" => some .exportNames
  | "unset" => some .unsetNames
  | "set" => some .setParameters
  | "shift" => some .shiftParameters
  | "test" => some .test
  | "[" => some .bracket
  | "command" => some .command
  | _ => none

/-- Commands that only look at the workspace and their input. -/
inductive Utility where
  | echo
  | printf
  | cat
  | ls
  | grep
  | rg
  | date
  | uname
  | whoami
deriving DecidableEq, Repr, Inhabited

/-- The utility with a name. -/
def Utility.named? : String → Option Utility
  | "echo" => some .echo
  | "printf" => some .printf
  | "cat" => some .cat
  | "ls" => some .ls
  | "grep" => some .grep
  | "rg" => some .rg
  | "date" => some .date
  | "uname" => some .uname
  | "whoami" => some .whoami
  | _ => none

/-- What runs a command. -/
inductive Provider where
  | builtin (b : Builtin)
  | delegate
  | utility (u : Utility)
deriving DecidableEq, Repr, Inhabited

/-- What runs the command with a name, where `delegated` tells the names of the delegate. -/
def Provider.find? (delegated : String → Bool) (name : String) : Option Provider :=
  match Builtin.named? name with
  | some b => some (.builtin b)
  | none => if delegated name then some .delegate else (Utility.named? name).map .utility

end Sandshell
