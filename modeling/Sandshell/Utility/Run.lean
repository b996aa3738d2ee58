import Sandshell.Shell.Lookup
import Sandshell.Utility.Cat
import Sandshell.Utility.Ls
import Sandshell.Utility.Printf
import Sandshell.Utility.Search
import Sandshell.Utility.System

/-!
# Running utilities
-/

namespace Sandshell.Utility

/-- Runs a utility. -/
def run {W : Type} [Workspace W] (ctx : UtilityContext) (args : List String) :
    Utility → WorkspaceM W CommandOutcome
  | .echo => return echoOutcome args
  | .printf => return Printf.outcome args
  | .cat => Cat.outcome ctx args
  | .ls => Ls.outcome ctx args
  | .grep => Search.outcome Search.grep ctx args
  | .rg => Search.outcome Search.rg ctx args
  | .date => return dateOutcome ctx.now args
  | .uname => return unameOutcome ctx.config args
  | .whoami => return whoamiOutcome ctx

end Sandshell.Utility
