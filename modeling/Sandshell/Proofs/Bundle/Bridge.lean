import Sandshell.Bundle.Bridge
import Sandshell.Proofs.Bundle.Snapshot
import Sandshell.Proofs.Bundle.WriteBack
import Sandshell.Proofs.Guest.Result

/-!
# Commands on a tree

A command of a bundle either makes a tree hold the files that its guest left, or fails before the
tree is touched, unless the guest left a file where the tree has a directory.
-/

namespace Sandshell.Bridge

open Sandshell.Path (IsNormal)

variable {t t' : Tree} {b : Bridge} {r : CommandRequest} {module : GuestModule}
variable {res : GuestResult} {after : FileSet} {name : String} {rest : List String}

/-- A step of the workspace that succeeds is one of the bridge with the same result. -/
theorem onWorkspace_ok {α : Type} {step : WorkspaceM Tree α} {a : α} (h : step t = (.ok a, t')) :
    onWorkspace step t = (.ok a, t') := by
  rw [onWorkspace, h]
  rfl

theorem onWorkspace_error {α : Type} {step : WorkspaceM Tree α} {e : WorkspaceError}
    (h : step t = (.error e, t')) : onWorkspace step t = (.error (.workspace e), t') := by
  rw [onWorkspace, h]
  rfl

/-- The run of a command that the engine refuses ends before anything is written. -/
theorem runOnSnapshot_of_error (h : t.WellFormed) {e : EngineError}
    (hrun : Engine.run b.config b.surroundings (guestRequest module r (.snapshot t.files))
      = .error e) : b.runOnSnapshot module r t = (.error (.engine e), t) := by
  rw [runOnSnapshot, bind_apply_ok (onWorkspace_ok (Snapshot.take_apply h)), hrun]
  rfl

/-- The run of any other command comes down to the write-back. -/
theorem runOnSnapshot_of_ok (h : t.WellFormed)
    (hrun : Engine.run b.config b.surroundings (guestRequest module r (.snapshot t.files))
      = .ok res) (hfiles : res.files = some after) :
    b.runOnSnapshot module r t
      = (onWorkspace (Snapshot.writeBack t.files.keys after) >>= fun _ => pure (output res)) t := by
  rw [runOnSnapshot, bind_apply_ok (onWorkspace_ok (Snapshot.take_apply h)), hrun]
  dsimp only
  rw [hfiles]

/-- A request for a command of the bundle runs its module on a snapshot. -/
theorem run_of_module (hargv : r.argv = name :: rest) (hmodule : b.module name = .ok module) :
    b.run r t = b.runOnSnapshot module r t := by
  rw [run, hargv]
  dsimp only
  rw [hmodule]
  rfl

/-- A command whose guest runs to its end succeeds if and only if the guest left no file where the
tree has a directory. -/
theorem run_isOk_iff (h : t.WellFormed) (hargv : r.argv = name :: rest)
    (hmodule : b.module name = .ok module) (hcwd : IsNormal r.cwd)
    (hfree : FreeAbove t.files r.cwd)
    (hrun : Engine.run b.config b.surroundings (guestRequest module r (.snapshot t.files))
      = .ok res) :
    (∃ out, (b.run r t).1 = .ok out)
      ↔ ∃ after, res.files = some after ∧ ∀ p ∈ after, t.isDirectory p = false := by
  obtain ⟨after, hfiles, hafter⟩ := Engine.wellFormedFiles_of_run
    (r := guestRequest module r (.snapshot t.files)) rfl h.files hcwd hfree hrun
  rw [run_of_module hargv hmodule, runOnSnapshot_of_ok h hrun hfiles]
  constructor
  · rintro ⟨out, hout⟩
    refine ⟨after, hfiles, ?_⟩
    rcases hback : (Snapshot.writeBack t.files.keys after : WorkspaceM Tree (Nat × Nat)) t
      with ⟨e | counts, t'⟩
    · rw [bind_apply_error (onWorkspace_error hback)] at hout
      cases hout
    · exact (Snapshot.of_writeBack_apply h hafter.normal hback).2
  -- the set is well formed, so no write is blocked by another one
  · rintro ⟨after', hfiles', hnone⟩
    obtain rfl : after = after' := Option.some.inj (hfiles.symm.trans hfiles')
    obtain ⟨counts, t', hback⟩ := Snapshot.exists_writeBack_apply h hafter hnone
    exact ⟨output res, by rw [bind_apply_ok (onWorkspace_ok hback)]; rfl⟩

/-- A bridge with one command, whose program has the given steps. -/
def installed (steps : List Step) : Bridge where
  registry := [{ name := "tools", version := "1", root := "tools", commands := [⟨"tool", "tool"⟩] }]
  modules := (∅ : Std.ExtTreeMap String GuestModule compare).insert "tools/tool"
    (.program { steps })

theorem module_installed (steps : List Step) :
    (installed steps).module "tool" = .ok (.program { steps }) :=
  rfl

/-- The command of the bridge, in the root. -/
def toolRequest : CommandRequest where
  argv := ["tool"]
  cwd := ""
  env := ∅

/-- A tree with one file, which stands in a directory. -/
def nested : Tree := ⟨(∅ : FileSet).insert "d/f" [1], ∅⟩

theorem wellFormed_nested : nested.WellFormed :=
  Tree.wellFormed_of_files (by decide +kernel)

/-- Removes `d/f` and makes a file in the root; its name is one character of that path. -/
def moveUp (address : UInt32) : List Step :=
  [.poke 0 (Bytes.ofString "d/f"), .call (.pathUnlinkFile 3 0 3),
    .call (.pathOpen 3 address 1 1 0 16)]

/-- The run of such a guest as the bridge asks for it. -/
def moveUpResult (address : UInt32) : Except EngineError GuestResult :=
  Engine.run (installed (moveUp address)).config (installed (moveUp address)).surroundings
    (guestRequest (.program { steps := moveUp address }) toolRequest (.snapshot nested.files))

/-- A guest that makes `f` leaves no file at a directory. -/
theorem run_isOk_iff_moveUp : ∃ res, moveUpResult 2 = .ok res
    ∧ ((∃ out, ((installed (moveUp 2)).run toolRequest nested).1 = .ok out)
      ↔ ∃ after, res.files = some after ∧ ∀ p ∈ after, nested.isDirectory p = false) := by
  obtain ⟨res, hres⟩ := exists_of_isOk (x := moveUpResult 2) (by decide +kernel)
  exact ⟨res, hres, run_isOk_iff wellFormed_nested rfl (module_installed _) (by decide +kernel)
    (by decide +kernel) hres⟩

/-- A guest that makes `d` runs to its end, and then `d` cannot be written, for it is still a
directory of the tree. -/
theorem not_forall_run_isOk : ¬ ∀ (t : Tree) (b : Bridge) (r : CommandRequest) (name : String)
    (rest : List String) (module : GuestModule) (res : GuestResult), t.WellFormed →
    r.argv = name :: rest → b.module name = .ok module → IsNormal r.cwd → FreeAbove t.files r.cwd →
    Engine.run b.config b.surroundings (guestRequest module r (.snapshot t.files)) = .ok res →
    ∃ out, (b.run r t).1 = .ok out := by
  intro hall
  obtain ⟨res, hres⟩ := exists_of_isOk (x := moveUpResult 0) (by decide +kernel)
  obtain ⟨out, hout⟩ := hall nested (installed (moveUp 0)) toolRequest "tool" [] _ res
    wellFormed_nested rfl (module_installed _) (by decide +kernel) (by decide +kernel) hres
  have hfailed : ((installed (moveUp 0)).run toolRequest nested).1
      = .error (.workspace (.isADirectory "d")) := by
    decide +kernel
  rw [hfailed] at hout
  contradiction

/-- What failed without touching the tree did not succeed, and left the tree alone. -/
theorem kept_of_error {outcome : Except DelegateError CommandOutput × Tree} {e : DelegateError}
    {P : CommandOutput → Tree → Prop} (h : outcome = (.error e, t)) :
    (∀ out t', outcome = (.ok out, t') → P out t')
      ∧ ∀ e t', outcome = (.error e, t') → (∀ cause, e ≠ .workspace cause) → t' = t := by
  subst h
  constructor
  · intro out t' hout
    cases hout
  · intro e' t' he _
    exact (Prod.mk.inj he).2.symm

/-- A command that succeeds leaves a tree with just the files that its guest returned; one that
fails otherwise than by a call on the tree leaves the tree alone. -/
theorem run_reproduces_or_leaves (h : t.WellFormed) (b : Bridge) (r : CommandRequest) :
    (∀ out t', b.run r t = (.ok out, t') → ∃ name rest module res, r.argv = name :: rest
        ∧ b.module name = .ok module
        ∧ Engine.run b.config b.surroundings (guestRequest module r (.snapshot t.files)) = .ok res
        ∧ res.files = some t'.files ∧ out = output res)
      ∧ ∀ e t', b.run r t = (.error e, t') → (∀ cause, e ≠ .workspace cause) → t' = t := by
  cases hargv : r.argv with
  | nil =>
    have hfailed : b.run r t = (.error (.failed "empty command"), t) := by
      rw [run, hargv]
      rfl
    exact kept_of_error hfailed
  | cons name rest =>
    cases hmodule : b.module name with
    | error e =>
      have hfailed : b.run r t = (.error e, t) := by
        rw [run, hargv]
        dsimp only
        rw [hmodule]
        rfl
      exact kept_of_error hfailed
    | ok module =>
      rw [run_of_module hargv hmodule]
      cases hrun : Engine.run b.config b.surroundings (guestRequest module r (.snapshot t.files))
        with
      | error e =>
        exact kept_of_error (runOnSnapshot_of_error h hrun)
      | ok res =>
        -- the working directory may lie below a file here, so that only normal paths are known
        obtain ⟨after, hfiles, hnormal⟩ := Engine.normal_files_of_run rfl h.files hrun
        rw [runOnSnapshot_of_ok h hrun hfiles]
        rcases hback : (Snapshot.writeBack t.files.keys after : WorkspaceM Tree (Nat × Nat)) t
          with ⟨e | counts, last⟩
        · rw [bind_apply_error (onWorkspace_error hback)]
          refine ⟨fun out t' hout => ?_, fun e' t' he hcause => ?_⟩
          · cases hout
          · cases he
            exact absurd rfl (hcause e)
        · rw [bind_apply_ok (onWorkspace_ok hback)]
          refine ⟨fun out t' hout => ?_, fun e t' he _ => ?_⟩
          · cases hout
            have hlast := (Snapshot.of_writeBack_apply h hnormal hback).1
            exact ⟨name, rest, module, res, rfl, hmodule, hrun, hfiles.trans (by rw [hlast]), rfl⟩
          · cases he

/-- The workspace ends up with the files that the guest left: `f` in the root, and no `d/f`. -/
theorem run_reproduces_moveUp : nested.WellFormed ∧ ∃ out t' res,
    (installed (moveUp 2)).run toolRequest nested = (.ok out, t')
      ∧ moveUpResult 2 = .ok res ∧ res.files = some t'.files := by
  have hok : ((installed (moveUp 2)).run toolRequest nested).1.isOk := by
    decide +kernel
  obtain ⟨out, hout⟩ := exists_of_isOk hok
  have hrun : (installed (moveUp 2)).run toolRequest nested
      = (.ok out, ((installed (moveUp 2)).run toolRequest nested).2) :=
    Prod.ext hout rfl
  obtain ⟨name, rest, module, res, hargv, hmodule, hres, hfiles, -⟩ :=
    (run_reproduces_or_leaves wellFormed_nested (installed (moveUp 2)) toolRequest).1 out _ hrun
  obtain ⟨rfl, rfl⟩ := List.cons.inj hargv
  obtain rfl := Except.ok.inj ((module_installed (moveUp 2)).symm.trans hmodule)
  exact ⟨wellFormed_nested, out, _, res, hrun, hres, hfiles⟩

end Sandshell.Bridge
