import Sandshell.Workspace.Basic

/-!
# Recorded workspaces

A workspace that keeps a record of the calls made on it and otherwise behaves as the one it wraps.
-/

namespace Sandshell

/-- A call on a workspace. -/
inductive WorkspaceCall where
  | read (path : String)
  | write (path : String)
  | delete (path : String)
  | stat (path : String)
  | list (path : String)
deriving DecidableEq, Repr, Inhabited

/-- The path that a call names. -/
def WorkspaceCall.path : WorkspaceCall → String
  | .read p | .write p | .delete p | .stat p | .list p => p

/-- A workspace with the calls made on it, newest first. -/
structure Traced (W : Type) where
  workspace : W
  calls : List WorkspaceCall

namespace Traced

/-- Runs a step of the wrapped workspace and records it as `call`. -/
def record {W α : Type} (call : WorkspaceCall) (step : WorkspaceM W α) : WorkspaceM (Traced W) α :=
  fun t =>
    let (result, workspace) := step t.workspace
    (result, ⟨workspace, call :: t.calls⟩)

theorem record_returns {W α : Type} {step : WorkspaceM W α} (h : Returns step)
    (call : WorkspaceCall) : Returns (record call step) :=
  fun t => h t.workspace

instance {W : Type} [Workspace W] : Workspace (Traced W) where
  read path := record (.read path) (Workspace.read path)
  write path data := record (.write path) (Workspace.write path data)
  delete path := record (.delete path) (Workspace.delete path)
  stat path := record (.stat path) (Workspace.stat path)
  list path := record (.list path) (Workspace.list path)
  hostDirectory? t :=
    (Workspace.hostDirectory? t.workspace).map fun d =>
      ⟨d.host, d.root, fun host => { t with workspace := d.put host }⟩
  extent t := Workspace.extent t.workspace
  read_returns path := record_returns (Workspace.read_returns path) _
  write_returns path data := record_returns (Workspace.write_returns path data) _
  delete_returns path := record_returns (Workspace.delete_returns path) _
  stat_returns path := record_returns (Workspace.stat_returns path) _
  list_returns path := record_returns (Workspace.list_returns path) _

end Traced

end Sandshell
