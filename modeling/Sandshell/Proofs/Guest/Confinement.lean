import Sandshell.Proofs.Guest.Footprint

/-!
# Guests are confined to their directory

Whatever a program does on a snapshot, the files that are not within its working directory are in
the result as they were, and no others are there.
-/

namespace Sandshell

open Sandshell.Path (IsNormal isWithin)

variable {files : FileSet} {r : GuestRequest} {ending : Ending} {after : Running}

namespace Engine

/-- The files that are not within the working directory are the same after a run, however it ends. -/
theorem play_keeps_outside {config : EngineConfig} {surroundings : Surroundings}
    (hsource : r.source = .snapshot files) (hfiles : WellFormedFiles files) (hcwd : IsNormal r.cwd)
    (h : play config surroundings r = .ok (ending, after)) (path : String)
    (hpath : ¬ isWithin r.cwd path) : after.guest.files.files[path]? = files[path]? := by
  obtain ⟨p, -, hkept⟩ := kept_of_play hsource hfiles hcwd h
  rw [hkept.getElem?_eq path hpath, GuestRequest.guest_files_files]

/-- A program on a snapshot returns a set of files unless it is refused, gives open flags without a
meaning or, where its memory may take all addresses, makes the engine panic; and in the set all files
that are not within its working directory are as they were, and no others are there. -/
theorem run_keeps_outside (config : EngineConfig) (surroundings : Surroundings)
    (hsource : r.source = .snapshot files) (hfiles : WellFormedFiles files)
    (hcwd : IsNormal r.cwd) :
    (∃ e, r.module.load config.maxMemory = .error e ∧ run config surroundings r = .error e)
      ∨ (∃ flags, run config surroundings r = .error (.invalidOpenFlags flags))
      ∨ 2 ^ 32 ≤ config.maxMemory ∧ run config surroundings r = .error .panicked
      ∨ ∃ res after, run config surroundings r = .ok res ∧ res.files = some after
        ∧ ∀ path, ¬ isWithin r.cwd path → after[path]? = files[path]? := by
  cases hplay : play config surroundings r with
  -- a run that is not played was refused for its module, for the rest of the request is in order
  | error e =>
    left
    rw [run, hplay]
    rw [play_eq config surroundings hsource hfiles hcwd] at hplay
    cases hload : r.module.load config.maxMemory with
    | error e' =>
      rw [hload] at hplay
      exact ⟨e', rfl, congrArg Except.error (Except.error.inj hplay).symm⟩
    | ok p =>
      rw [hload] at hplay
      contradiction
  | ok out =>
    obtain ⟨ending, after⟩ := out
    right
    have hrun : run config surroundings r = result ending after := by
      rw [run, hplay]
      rfl
    cases hresult : result ending after with
    | error e =>
      rcases result_eq_error hresult with ⟨flags, -, rfl⟩ | ⟨rfl, rfl⟩
      · exact .inl ⟨flags, hrun.trans hresult⟩
      · exact .inr (.inl ⟨maxMemory_of_panicked hplay, hrun.trans hresult⟩)
    | ok res =>
      exact .inr (.inr ⟨res, _, hrun.trans hresult, result_eq_ok hresult,
        play_keeps_outside hsource hfiles hcwd hplay⟩)

/-- A guest in `a` that removes its only file and then names one above its directory. -/
def reachingUp : GuestRequest where
  module := .program { steps := [.poke 0 (Bytes.ofString "f../b"),
    .call (.pathUnlinkFile 3 0 1), .call (.pathUnlinkFile 3 1 4)] }
  cwd := "a"
  source := .snapshot (((∅ : FileSet).insert "a/f" [1]).insert "b" [2])

theorem run_keeps_outside_reachingUp :
    WellFormedFiles (((∅ : FileSet).insert "a/f" [1]).insert "b" [2]) ∧ IsNormal reachingUp.cwd
      ∧ ((∃ e, reachingUp.module.load ({} : EngineConfig).maxMemory = .error e
          ∧ run {} {} reachingUp = .error e)
        ∨ (∃ flags, run {} {} reachingUp = .error (.invalidOpenFlags flags))
        ∨ ∃ res after, run {} {} reachingUp = .ok res ∧ res.files = some after
          ∧ ∀ path, ¬ isWithin reachingUp.cwd path →
            after[path]? = (((∅ : FileSet).insert "a/f" [1]).insert "b" [2])[path]?) := by
  have hfiles : WellFormedFiles (((∅ : FileSet).insert "a/f" [1]).insert "b" [2]) := by
    decide +kernel
  have hcwd : IsNormal reachingUp.cwd := by decide +kernel
  refine ⟨hfiles, hcwd, (run_keeps_outside {} {} rfl hfiles hcwd).imp_right
    (Or.imp_right fun h => h.resolve_left fun hpanic => ?_)⟩
  -- with the default ceiling there is no memory that takes all addresses
  exact absurd hpanic.1 (by decide)

end Engine

end Sandshell
