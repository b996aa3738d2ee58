import Sandshell.Text.Split

/-!
# Bundles of commands

A bundle declares commands whose modules stand below its root. Bundles are searched in the order in
which they were installed.
-/

namespace Sandshell

/-- A command of a bundle. -/
structure BundleCommand where
  name : String
  modulePath : String
deriving DecidableEq, Repr, Inhabited

/-- An installed bundle. -/
structure Bundle where
  name : String
  version : String
  root : String
  commands : List BundleCommand := []
deriving DecidableEq, Repr, Inhabited

namespace Bundle

/-- The first command with a name. -/
def command? (b : Bundle) (name : String) : Option BundleCommand :=
  b.commands.find? (·.name = name)

/-- The key of a command's module: its path below the root, with one slash between them. -/
def moduleKey (b : Bundle) (c : BundleCommand) : String :=
  Text.trimRight '/' b.root ++ "/" ++ Text.trimLeft '/' c.modulePath

end Bundle

/-- Bundles in the order in which they were installed. -/
abbrev Registry := List Bundle

/-- The first bundle that declares a command, with the command. -/
def Registry.find? (r : Registry) (name : String) : Option (Bundle × BundleCommand) :=
  r.findSome? fun b => (b.command? name).map (b, ·)

end Sandshell
