import Sandshell.Proofs.Shell.Comparisons
import Sandshell.Proofs.Shell.Frame
import Sandshell.Proofs.Utility.Search.Options
import Sandshell.Proofs.Utility.Termination

/-!
# Calls without an end

What a script does to a workspace it does by calls: it looks at the workspace, writes files, and hands
commands to its delegate. Each call on a workspace ends, but a search makes as many of them as the
directories that it finds, and these need not come to an end. Where a search does not terminate there
is a script without an end, and searches of a tree whose stored paths are normal do terminate.
-/

namespace Sandshell

open Relation (ReflTransGen)

namespace Shell

variable {W : Type} [Workspace W] (sh : Shell W)

/-- One call that a script can make and go on: looking at the workspace, writing a file, or a call
of the delegate that does not end the script. -/
inductive Touches : W → W → Prop
  | peeks {w w' : W} (h : Workspace.Peeks w w') : Touches w w'
  | writes (path : String) (data : Bytes) (w : W) : Touches w (Workspace.write path data w).2
  | delegates {d : Delegate W} (hd : sh.delegate? = some d) (request : CommandRequest) (w : W)
      (hanswer : ∀ e, (d.run request w).1 = .error e → (ShellError.ofDelegate e).isFatal = false) :
      Touches w (d.run request w).2

/-- A search of a directory does not terminate, or a call of the delegate has no end. -/
def Hangs (w : W) : Prop :=
  Workspace.SearchesForever w
    ∨ ∃ d request, sh.delegate? = some d ∧ (d.run request w).1 = .error (.workspace .endless)

/-- Wherever calls lead from a workspace, no search and no call of the delegate is without an end. -/
def EndsFrom (w : W) : Prop :=
  ∀ v, ReflTransGen sh.Touches w v → ¬ sh.Hangs v

end Shell

/-! ## Searches as scripts -/

namespace Search

/-- The arguments of a search of a directory under any name. -/
theorem Options.parse_recursive (operand : String) : Options.parse ["-r", "x", "--", operand]
    = .ok { pattern := "x", files := [operand], recursive := true } := by
  have hread : ({} : Draft).read [] ["-r", "x", "--", operand]
      = .ok { options := { recursive := true }, positional := [operand, "x"] } := by
    simp [Draft.read, Options.letter?]
  simp only [Options.parse, hread]
  rfl

variable {W : Type} [Workspace W] {w w' : W} {operand path : String} {stat : Stat}

/-- A walk that has no end has no targets. -/
theorem targets_of_not_terminates (mode : Mode) {cwd : String}
    (hpath : Path.resolve? cwd operand = some path)
    (hstat : Workspace.stat path w = (.ok (some stat), w')) (hkind : stat.kind = .directory)
    (hforever : ¬ Walk.Terminates (visit mode.recursive) [⟨shownPrefix operand, path⟩] w') :
    ∃ v, targets mode true cwd operand w = (.error .endless, v) := by
  rcases hwalk : Walk.below (visit mode.recursive) ⟨shownPrefix operand, path⟩ w' with ⟨result, v⟩
  have hendless := (Walk.below_eq_endless_iff (visit_returns mode.recursive) _).2 hforever
  rw [hwalk] at hendless
  obtain rfl : result = .error .endless := hendless
  refine ⟨v, ?_⟩
  rw [targets, hpath]
  dsimp only
  rw [bind_apply_ok hstat]
  dsimp only
  rw [hkind, if_neg (by decide), Bool.not_true, if_neg Bool.false_ne_true, bind_apply_error hwalk]

/-- A search has no end where the walk of the directory that it names has none. -/
theorem outcome_of_not_terminates (mode : Mode) (ctx : UtilityContext)
    (hpath : Path.resolve? ctx.cwd operand = some path)
    (hstat : Workspace.stat path w = (.ok (some stat), w')) (hkind : stat.kind = .directory)
    (hforever : ¬ Walk.Terminates (visit mode.recursive) [⟨shownPrefix operand, path⟩] w') :
    ∃ v, outcome mode ctx ["-r", "x", "--", operand] w = (.error .endless, v) := by
  obtain ⟨regex, hregex⟩ := exists_of_isOk (show (Regex.read "x").isOk by decide +kernel)
  obtain ⟨v, htargets⟩ := targets_of_not_terminates mode hpath hstat hkind hforever
  have hcollected : [operand].mapM (targets mode true ctx.cwd) w = (.error .endless, v) := by
    rw [List.mapM_cons, bind_apply_error htargets]
  have hsearch : searchFiles mode { pattern := "x", files := [operand], recursive := true }
      regex.isMatch ctx.cwd w = (.error .endless, v) := by
    rw [searchFiles]
    exact bind_apply_error hcollected
  refine ⟨v, ?_⟩
  rw [outcome, Options.parse_recursive]
  dsimp only
  rw [show Options.expression { pattern := "x", files := [operand], recursive := true } = "x" from rfl,
    hregex]
  exact bind_apply_error hsearch

end Search

/-- A utility that fails in a stage by itself fails there with what the workspace says. -/
theorem Run.named_of_utility {W : Type} [Workspace W] {sh : Shell W} {u : Utility} {name : String}
    (hfind : Provider.find? sh.delegated name = some (.utility u)) {args : List String}
    {stdin : Bytes} {s : Session W} {e : WorkspaceError} {v : W}
    (h : u.run { config := sh.config, cwd := s.state.cwd, env := s.state.env, stdin, now := sh.now }
      args s.workspace = (.error e, v)) :
    named sh [] name args stdin s = (.error (.workspace e), { s with workspace := v }) := by
  rw [named, bind_apply_ok (show ShellM.state s = (.ok s.state, s) from rfl), hfind]
  show ShellM.onWorkspaceOr .workspace _ s = _
  rw [ShellM.onWorkspaceOr, show withValues s.state.env [] = s.state.env from rfl, h]

namespace Shell

variable {W : Type} [Workspace W] {sh : Shell W} {w w' : W}

/-- Where a search of a directory does not terminate, the script that searches it has no end. -/
theorem execute_search (mode : Search.Mode) {u : Utility} {s : Session W} {operand path : String}
    {stat : Stat}
    (hfind : Provider.find? sh.delegated mode.name = some (.utility u))
    (hrun : ∀ ctx args, (u.run ctx args : WorkspaceM W CommandOutcome) = Search.outcome mode ctx args)
    (hpath : Path.resolve? s.state.cwd operand = some path)
    (hstat : Workspace.stat path s.workspace = (.ok (some stat), w'))
    (hkind : stat.kind = .directory)
    (hforever : ¬ Walk.Terminates (Search.visit mode.recursive)
      [⟨Search.shownPrefix operand, path⟩] w') :
    (sh.execute (Quoting.commandLine [mode.name, "-r", "x", "--", operand]) s).1
      = .error (.workspace .endless) := by
  obtain ⟨v, houtcome⟩ := Search.outcome_of_not_terminates mode
    { config := sh.config, cwd := s.state.cwd, env := s.state.env, stdin := [], now := sh.now }
    hpath hstat hkind hforever
  rw [← hrun] at houtcome
  rw [execute_commandLine_of_isFatal rfl (Run.named_of_utility hfind houtcome)]

variable (sh) in
/-- So there is a script without an end where searches have none. -/
theorem exists_execute_eq_endless (hgrep : sh.delegated "grep" = false)
    (hrg : sh.delegated "rg" = false) (h : Workspace.SearchesForever w) :
    ∃ text state, (Script.parse text).isOk
      ∧ (sh.execute text ⟨w, state⟩).1 = .error (.workspace .endless) := by
  obtain ⟨skipHidden, cwd, operand, path, stat, w', hpath, hstat, hkind, hforever⟩ := h
  have hparse : ∀ name, (Script.parse (Quoting.commandLine [name, "-r", "x", "--", operand])).isOk := by
    intro name
    obtain ⟨ws, hparse, -⟩ := Quoting.exists_parse_commandLine name ["-r", "x", "--", operand]
    rw [hparse]
    rfl
  -- `rg` leaves out what is hidden, `grep` does not
  cases skipHidden with
  | true =>
    have hfind : Provider.find? sh.delegated "rg" = some (.utility .rg) := by
      rw [Provider.find?, hrg]
      rfl
    have hendless := execute_search (s := ⟨w, { cwd }⟩) Search.rg hfind (fun _ _ => rfl) hpath hstat
      hkind hforever
    exact ⟨_, _, hparse "rg", hendless⟩
  | false =>
    have hfind : Provider.find? sh.delegated "grep" = some (.utility .grep) := by
      rw [Provider.find?, hgrep]
      rfl
    have hendless := execute_search (s := ⟨w, { cwd }⟩) Search.grep hfind (fun _ _ => rfl) hpath hstat
      hkind hforever
    exact ⟨_, _, hparse "grep", hendless⟩

end Shell

/-! ## Trees -/

/-- A file under a path that begins with a slash. -/
def Tree.slashed : Tree := .ofFiles [("/a", [120])]

/-- Its root shows an entry under the empty name, which stands for the root: a search never gets away
from it. -/
theorem Tree.searchesForever_slashed : Workspace.SearchesForever Tree.slashed := by
  have hvisit : Search.visit true ⟨"", ""⟩ Tree.slashed
      = (.ok ([], [⟨"", ""⟩]), Tree.slashed) := rfl
  refine ⟨true, "", ".", "", ⟨.directory, 0⟩, _, rfl, rfl, rfl, ?_⟩
  refine Walk.not_terminates_of_stays (· = [⟨"", ""⟩]) (List.cons_ne_nil _ _).symm ?_ rfl
  intro directory waiting hstays
  obtain ⟨rfl, rfl⟩ := List.cons.inj hstays
  exact ⟨[], [⟨"", ""⟩], hvisit, rfl⟩


namespace Tree.HasNormalKeys

variable {t t' : Tree}

theorem of_peeks (h : t.HasNormalKeys) (hpeeks : Workspace.Peeks t t') : t'.HasNormalKeys := by
  cases hpeeks <;> exact h

/-- Writes leave normal keys, even if they fail. -/
theorem after_write (h : t.HasNormalKeys) (path : String) (data : Bytes) :
    (Workspace.write path data t).2.HasNormalKeys := by
  show (change (·.write path data) t).2.HasNormalKeys
  cases hwrite : t.write path data with
  | error e => rwa [change_of_error _ hwrite]
  | ok t' =>
    rw [change_of_ok _ hwrite]
    exact h.write hwrite

/-- All scripts on a tree with normal paths end if the delegate, where there is one, keeps the paths
normal and ends on such trees. -/
theorem endsFrom (h : t.HasNormalKeys) {sh : Shell Tree}
    (hd : ∀ d, sh.delegate? = some d → ∀ request t, t.HasNormalKeys →
      (d.run request t).2.HasNormalKeys ∧ (d.run request t).1 ≠ .error (.workspace .endless)) :
    sh.EndsFrom t := by
  intro t' hreach
  have hnormal : t'.HasNormalKeys := by
    induction hreach with
    | refl => exact h
    | tail _ htouch ih =>
      cases htouch with
      | peeks hpeeks => exact ih.of_peeks hpeeks
      | writes path data => exact ih.after_write path data
      | delegates hsome request => exact (hd _ hsome request _ ih).1
  rintro (hforever | ⟨d, request, hsome, hendless⟩)
  · exact hnormal.not_searchesForever hforever
  · exact (hd d hsome request t' hnormal).2 hendless

end Tree.HasNormalKeys

end Sandshell
