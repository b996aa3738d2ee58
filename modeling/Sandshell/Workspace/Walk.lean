import Sandshell.Workspace.Basic

/-!
# Walks

Visiting directories depth first. What a visit finds comes before what is found further down, and
the directories that it hands on are visited next. A walk on a tree with odd paths can go on forever.
-/

namespace Sandshell.Walk

variable {W α β : Type}

/-- What a walk has found, and the directories that are waiting. -/
structure Progress (α β : Type) where
  found : List β
  waiting : List α

/-- Visits the directories that are waiting, and those that the visits hand on, until none is left or
a visit fails. Nothing comes of a walk that has always one more to visit. -/
def Progress.toEnd? (visit : α → WorkspaceM W (List β × List α)) (progress : Progress α β) (w : W) :
    Option (Except WorkspaceError (List β) × W) :=
  match progress.waiting with
  | [] => some (.ok progress.found, w)
  | directory :: rest =>
    match visit directory w with
    | (.ok (more, next), w) =>
      Progress.mk (progress.found ++ more) (next ++ rest) |>.toEnd? visit w
    | (.error e, w) => some (.error e, w)
partial_fixpoint

/-- A walk without a bound, which may have no end. -/
def unbounded (visit : α → WorkspaceM W (List β × List α)) (waiting : List α) :
    WorkspaceM W (List β) :=
  fun w => ((Progress.mk [] waiting).toEnd? visit w).getD (.error .endless, w)

/-- Visits the directories that are waiting, and those that the visits hand on: `visits` of them by
recursion on their number, and what is waiting then without a bound. -/
def run (visit : α → WorkspaceM W (List β × List α)) : Nat → List α → WorkspaceM W (List β)
  | _, [] => return []
  | 0, directory :: waiting => unbounded visit (directory :: waiting)
  | visits + 1, directory :: waiting => do
    let (found, next) ← visit directory
    return found ++ (← run visit visits (next ++ waiting))

/-- Visits a directory and everything below it. -/
def below [Workspace W] (visit : α → WorkspaceM W (List β × List α)) (start : α) :
    WorkspaceM W (List β) := do
  run visit (Workspace.extent (← get)) [start]

end Sandshell.Walk
