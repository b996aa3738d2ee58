import Sandshell.Proofs.Guest.Run
import Sandshell.Proofs.Tree.FileSet

/-!
# Results of runs

A run on a snapshot is that of a program that loads, and consists of changes to the guest that the
request starts. Unless it fails it returns all files.
-/

namespace Sandshell

open Sandshell.Path (IsNormal)

variable {files start : FileSet} {r : GuestRequest} {ending : Ending} {after : Running}
variable {config : EngineConfig} {surroundings : Surroundings} {res : GuestResult} {cwd : String}

namespace GuestRequest

/-- The guest that a request starts has only its directory open. -/
theorem confined_guest (r : GuestRequest) (surroundings : Surroundings) (config : EngineConfig)
    (p : GuestProgram) (t : Tree) (h : IsNormal cwd) :
    (r.guest surroundings config p t cwd).descriptors.Confined :=
  DescriptorTable.confined_ofRoot h

/-- A guest starts with well-formed files. -/
theorem wellFormed_guest (r : GuestRequest) (surroundings : Surroundings) (config : EngineConfig)
    (p : GuestProgram) (hfiles : WellFormedFiles files) (hcwd : IsNormal cwd)
    (hfree : FreeAbove files cwd) :
    (r.guest surroundings config p ⟨files, ∅⟩ cwd).files.WellFormed :=
  (Tree.wellFormed_of_files hfiles).ensureDirectory hcwd (fun hmem => (hfree cwd hmem).1 rfl)
    fun q hq => (hfree q hq).2

@[simp] theorem guest_files_files (r : GuestRequest) (surroundings : Surroundings)
    (config : EngineConfig) (p : GuestProgram) (t : Tree) (cwd : String) :
    (r.guest surroundings config p t cwd).files.files = t.files :=
  Tree.ensureDirectory_files t cwd

end GuestRequest

namespace Engine

/-- A run is that of a program that loads, and all it does are changes of the guest that it starts
with. -/
theorem kept_of_play_of_normalFiles (hsource : r.source = .snapshot files)
    (hstart : GuestRequest.normalFiles files = .ok start) (hcwd : Path.normalize? r.cwd = some cwd)
    (h : play config surroundings r = .ok (ending, after)) :
    ∃ p, r.module.load config.maxMemory = .ok p
      ∧ Guest.Kept (r.guest surroundings config p ⟨start, ∅⟩ cwd) after.guest := by
  rw [play_of_normalFiles config surroundings hsource hstart hcwd] at h
  cases hload : r.module.load config.maxMemory with
  | error e =>
    rw [hload] at h
    contradiction
  | ok p =>
    rw [hload] at h
    refine ⟨p, rfl, ?_⟩
    -- all steps are changes of a confined guest, and changes keep
    have hnormal := Path.isNormal_of_normalize? hcwd
    have hconfined := r.confined_guest surroundings config p ⟨start, ∅⟩ hnormal
    have hchanges := Running.changes_steps (r := ⟨r.guest surroundings config p ⟨start, ∅⟩ cwd,
      0, []⟩) hconfined (p.memory = .asExpected) (p.bounds config.maxMemory) p.steps
    rw [show Running.steps _ _ _ _ = _ from Except.ok.inj h] at hchanges
    exact Guest.kept_of_changes hchanges hconfined

/-- A play from a snapshot keeps what every act keeps. -/
theorem kept_of_play (hsource : r.source = .snapshot files) (hfiles : WellFormedFiles files)
    (hcwd : Path.normalize? r.cwd = some cwd)
    (h : play config surroundings r = .ok (ending, after)) :
    ∃ p, r.module.load config.maxMemory = .ok p
      ∧ Guest.Kept (r.guest surroundings config p ⟨files, ∅⟩ cwd) after.guest :=
  kept_of_play_of_normalFiles hsource (GuestRequest.normalFiles_eq_ok hfiles) hcwd h

/-- A run that does not fail returns all files. -/
theorem result_eq_ok {res : GuestResult} (h : result ending after = .ok res) :
    res.files = some after.guest.files.files := by
  rw [result] at h
  cases hsettle : settle ending after.guest.stderr with
  | error e =>
    rw [hsettle] at h
    contradiction
  | ok settled =>
    rw [hsettle] at h
    rw [← Except.ok.inj h]

/-- A finished run fails only by open flags without a meaning, or because the engine panics. -/
theorem result_eq_error {e : EngineError} (h : result ending after = .error e) :
    (∃ flags, ending = .malformedFlags flags ∧ e = .invalidOpenFlags flags)
      ∨ ending = .panicked ∧ e = .panicked := by
  cases ending with
  | malformedFlags flags => exact .inl ⟨flags, rfl, (Except.error.inj h).symm⟩
  | panicked => exact .inr ⟨rfl, (Except.error.inj h).symm⟩
  | returned => contradiction
  | exited code => contradiction
  | trapped message => contradiction

/-- A run that does not fail was played to its end. -/
theorem exists_play_of_run (h : run config surroundings r = .ok res) :
    ∃ ending after, play config surroundings r = .ok (ending, after)
      ∧ result ending after = .ok res := by
  rw [run] at h
  cases hplay : play config surroundings r with
  | error e =>
    rw [hplay] at h
    contradiction
  | ok out =>
    rw [hplay] at h
    exact ⟨out.1, out.2, rfl, h⟩

/-- Without a directory in the workspace, and with files that cannot be normalized, nothing is
played. -/
theorem exists_start_of_play (hsource : r.source = .snapshot files)
    (h : play config surroundings r = .ok (ending, after)) :
    ∃ cwd start, Path.normalize? r.cwd = some cwd
      ∧ GuestRequest.normalFiles files = .ok start := by
  rw [play, hsource] at h
  dsimp only at h
  rw [GuestRequest.directory] at h
  cases hcwd : Path.normalize? r.cwd with
  | none =>
    rw [hcwd] at h
    contradiction
  | some cwd =>
    rw [hcwd] at h
    cases hstart : GuestRequest.normalFiles files with
    | error e =>
      rw [hstart] at h
      contradiction
    | ok start => exact ⟨cwd, start, rfl, rfl⟩

/-- What a run returns is what its changes made of the guest that it started with. -/
theorem exists_kept_of_run_of_snapshot (hsource : r.source = .snapshot files)
    (h : run config surroundings r = .ok res) :
    ∃ cwd start p after, Path.normalize? r.cwd = some cwd
      ∧ GuestRequest.normalFiles files = .ok start
      ∧ Guest.Kept (r.guest surroundings config p ⟨start, ∅⟩ cwd) after
      ∧ res.files = some after.files.files := by
  obtain ⟨ending, after, hplay, hresult⟩ := exists_play_of_run h
  obtain ⟨cwd, start, hcwd, hstart⟩ := exists_start_of_play hsource hplay
  obtain ⟨p, -, hkept⟩ := kept_of_play_of_normalFiles hsource hstart hcwd hplay
  exact ⟨cwd, start, p, after.guest, hcwd, hstart, hkept, result_eq_ok hresult⟩

/-- The files of a result are those of the guest in the end. -/
theorem exists_kept_of_run (hsource : r.source = .snapshot files) (hfiles : WellFormedFiles files)
    (h : run config surroundings r = .ok res) :
    ∃ cwd p after, Path.normalize? r.cwd = some cwd
      ∧ Guest.Kept (r.guest surroundings config p ⟨files, ∅⟩ cwd) after
      ∧ res.files = some after.files.files := by
  obtain ⟨cwd, start, p, after, hcwd, hstart, hkept, hres⟩ :=
    exists_kept_of_run_of_snapshot hsource h
  obtain rfl := Except.ok.inj ((GuestRequest.normalFiles_eq_ok hfiles).symm.trans hstart)
  exact ⟨cwd, p, after, hcwd, hkept, hres⟩

/-- Whatever files a run starts with, those that it returns have normal paths. -/
theorem isNormal_of_run (hsource : r.source = .snapshot files)
    (h : run config surroundings r = .ok res) {after : FileSet} (hafter : res.files = some after) :
    ∀ p ∈ after, IsNormal p := by
  obtain ⟨cwd, start, p, last, -, hstart, hkept, hres⟩ := exists_kept_of_run_of_snapshot hsource h
  obtain rfl : after = last.files.files := Option.some.inj (hafter.symm.trans hres)
  refine hkept.normal ?_
  rw [GuestRequest.guest_files_files]
  exact GuestRequest.isNormal_of_normalFiles hstart

/-- They have normal paths. -/
theorem normal_files_of_run (hsource : r.source = .snapshot files) (hfiles : WellFormedFiles files)
    (h : run config surroundings r = .ok res) :
    ∃ after, res.files = some after ∧ ∀ p ∈ after, IsNormal p := by
  obtain ⟨cwd, p, after, -, -, hres⟩ := exists_kept_of_run hsource hfiles h
  exact ⟨after.files.files, hres, isNormal_of_run hsource h hres⟩

/-- In a directory without a file at or above it a run returns well-formed files. -/
theorem wellFormedFiles_of_run (hsource : r.source = .snapshot files)
    (hfiles : WellFormedFiles files) (hcwd : IsNormal r.cwd) (hfree : FreeAbove files r.cwd)
    (h : run config surroundings r = .ok res) :
    ∃ after, res.files = some after ∧ WellFormedFiles after := by
  obtain ⟨cwd, p, after, hcwd', hkept, hres⟩ := exists_kept_of_run hsource hfiles h
  obtain rfl : r.cwd = cwd := Option.some.inj (hcwd.symm.trans hcwd')
  have hstart := r.wellFormed_guest surroundings config p hfiles hcwd hfree
  exact ⟨after.files.files, hres, (hkept.wellFormed hstart).files⟩

end Engine

end Sandshell
