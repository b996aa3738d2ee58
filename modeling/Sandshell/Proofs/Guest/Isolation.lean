import Mathlib.Data.List.Nodup
import Sandshell.Proofs.Guest.Remaking
import Sandshell.Proofs.Tree.FileSet

/-!
# What a guest can tell about files outside its directory

A guest cannot tell two snapshots apart that hold the same files within its directory, with one
exception. A directory of a snapshot exists only through the files below it. A guest that removes
all files of its directory removes the directory with them, and whether its parent still stands then
depends on files beside it. A directory without files is recorded with its parents, and then the
parents stand in any case.
-/

namespace Sandshell

open Sandshell.Path (IsNormal isWithin)

variable {cwd p : String} {files files' : FileSet}

/-- Two snapshots with the same files within a directory, and none at or above it. -/
structure SameView (cwd : String) (files files' : FileSet) : Prop where
  normal : IsNormal cwd
  wellFormed : WellFormedFiles files
  wellFormed' : WellFormedFiles files'
  free : FreeAbove files cwd
  free' : FreeAbove files' cwd
  same : ∀ p, isWithin cwd p → files[p]? = files'[p]?

/-- The directory has no files, or something stands beside it in both snapshots or in neither. -/
def ParentsAlike (cwd : String) (files files' : FileSet) : Prop :=
  (∀ p ∈ files, ¬ isWithin cwd p) ∨ (StandsBeside files cwd ↔ StandsBeside files' cwd)

/-- Runs that end in the same way, with the same errors on the way, memory and streams, and the same
files within a directory. -/
structure SameRun (cwd : String) (out out' : Ending × Running) : Prop where
  ending_eq : out'.1 = out.1
  log_eq : out'.2.log = out.2.log
  memory_eq : out'.2.guest.memory = out.2.guest.memory
  stdout_eq : out'.2.guest.stdout = out.2.guest.stdout
  stderr_eq : out'.2.guest.stderr = out.2.guest.stderr
  files_eq : ∀ p, isWithin cwd p →
    out'.2.guest.files.files[p]? = out.2.guest.files.files[p]?

/-- Results that differ at most in files that are not within a directory. -/
structure SameResult (cwd : String) (res res' : GuestResult) : Prop where
  exitCode_eq : res'.exitCode = res.exitCode
  stdout_eq : res'.stdout = res.stdout
  stderr_eq : res'.stderr = res.stderr
  stdoutTruncated_eq : res'.stdoutTruncated = res.stdoutTruncated
  stderrTruncated_eq : res'.stderrTruncated = res.stderrTruncated
  log_eq : res'.log = res.log
  files_eq : ∃ after after', res.files = some after ∧ res'.files = some after'
    ∧ ∀ p, isWithin cwd p → after'[p]? = after[p]?

/-- The request has the same outcome on both snapshots, as far as its guest can tell. -/
structure CannotTell (config : EngineConfig) (surroundings : Surroundings) (r : GuestRequest)
    (files files' : FileSet) : Prop where
  play : SameOutcome (SameRun r.cwd) (Engine.play config surroundings (r.withSnapshot files))
    (Engine.play config surroundings (r.withSnapshot files'))
  run : SameOutcome (SameResult r.cwd) (Engine.run config surroundings (r.withSnapshot files))
    (Engine.run config surroundings (r.withSnapshot files'))

/-! ## The trees that guests start with -/

/-- Without recorded directories the place of a run shows in the files beside it. -/
theorem anchored_iff : (⟨files, ∅⟩ : Tree).Anchored cwd ↔ StandsBeside files cwd := by
  simp only [Tree.Anchored, Tree.IsKey, StandsBeside, Std.ExtTreeSet.not_mem_empty, or_false,
    false_or]

/-- File sets that look the same from a directory make trees that do. -/
theorem SameView.sameWithin (h : SameView cwd files files') :
    Tree.SameWithin cwd ⟨files, ∅⟩ ⟨files', ∅⟩ :=
  ⟨h.same, fun _ _ => Iff.rfl⟩

/-- The guests that a request starts on both snapshots begin with trees that agree. -/
theorem SameView.agree (h : SameView cwd files files') (hparents : ParentsAlike cwd files files') :
    Tree.Agree cwd (Tree.ensureDirectory ⟨files, ∅⟩ cwd) (Tree.ensureDirectory ⟨files', ∅⟩ cwd) := by
  have hdirectory := h.sameWithin.isDirectory (Path.isWithin_self cwd)
  have hsame : (Tree.ensureDirectory ⟨files, ∅⟩ cwd).directories
      = (Tree.ensureDirectory ⟨files', ∅⟩ cwd).directories := by
    rw [Tree.ensureDirectory, Tree.ensureDirectory, hdirectory]
    split
    · rfl
    · exact Tree.recordAlong_directories "" _ rfl
  refine ⟨⟨fun p hp => ?_, fun p _ => by rw [hsame]⟩, ?_, ?_⟩
  · rw [Tree.ensureDirectory_files, Tree.ensureDirectory_files]
    exact h.same p hp
  · rw [Tree.ensureDirectory_files, Tree.ensureDirectory_files]
    exact iff_of_false (h.free.parent_not_mem h.wellFormed) (h.free'.parent_not_mem h.wellFormed')
  · by_cases hstands : (⟨files, ∅⟩ : Tree).isDirectory cwd
    · -- nothing is recorded: the directory exists through its files, or is the root
      have hstands' := hdirectory ▸ hstands
      rw [Tree.ensureDirectory, Tree.ensureDirectory, if_pos hstands, if_pos hstands',
        anchored_iff, anchored_iff]
      -- without files only the root is there by itself
      rcases hparents with hempty | hbeside
      · have hroot : cwd = "" := by
          rcases Tree.isDirectory_iff.1 hstands with hroot | hmem | ⟨p, hp | hp, hbelow⟩
          · exact hroot
          · exact absurd hmem Std.ExtTreeSet.not_mem_empty
          · exact absurd hbelow.isWithin (hempty p hp)
          · exact absurd hp Std.ExtTreeSet.not_mem_empty
        subst hroot
        exact iff_of_true (.inl rfl) (.inl rfl)
      · exact hbeside
    · -- the directory is recorded together with its parent
      rw [Bool.not_eq_true] at hstands
      have hstands' := hdirectory ▸ hstands
      by_cases hparent : Path.parent cwd = ""
      · exact iff_of_true (.inl hparent) (.inl hparent)
      · exact iff_of_true (.inr (.inl (Tree.parent_mem_ensureDirectory h.normal hstands hparent)))
          (.inr (.inl (Tree.parent_mem_ensureDirectory h.normal hstands' hparent)))

/-- Runs in step give results that cannot be told apart from inside. -/
theorem sameRun_of_inStep {g : Guest} {out out' : Ending × Running}
    (h : Running.InStep cwd g out out') : SameRun cwd out out' := by
  obtain ⟨-, u, rfl, htwin⟩ := h
  exact ⟨rfl, rfl, rfl, rfl, rfl, fun p hp => (htwin.agree.getElem?_eq p hp).symm⟩

namespace Engine

variable {config : EngineConfig} {surroundings : Surroundings} {r : GuestRequest}

/-- Runs are played in the same way, by the steps of twins. -/
theorem sameOutcome_play (config : EngineConfig) (surroundings : Surroundings)
    (h : SameView r.cwd files files') (hparents : ParentsAlike r.cwd files files') :
    SameOutcome (SameRun r.cwd) (play config surroundings (r.withSnapshot files))
      (play config surroundings (r.withSnapshot files')) := by
  rw [play_eq (r := r.withSnapshot files) config surroundings rfl h.wellFormed h.normal,
    play_eq (r := r.withSnapshot files') config surroundings rfl h.wellFormed' h.normal]
  show SameOutcome _ (Except.map _ (r.module.load config.maxMemory))
    (Except.map _ (r.module.load config.maxMemory))
  cases r.module.load config.maxMemory with
  | error e => exact .error e
  | ok p =>
    have htwin : Guest.Twin r.cwd (r.guest surroundings config p ⟨files, ∅⟩ r.cwd)
        (Tree.ensureDirectory ⟨files', ∅⟩ r.cwd) :=
      ⟨DescriptorTable.confined_ofRoot h.normal, rfl, h.agree hparents⟩
    exact .ok (sameRun_of_inStep (Running.inStep_steps
      (r := ⟨r.guest surroundings config p ⟨files, ∅⟩ r.cwd, 0, []⟩) htwin _ _ _))

/-- Same runs have the same results. -/
theorem sameOutcome_result {cwd : String} {out out' : Ending × Running} (h : SameRun cwd out out') :
    SameOutcome (SameResult cwd) (result out.1 out.2) (result out'.1 out'.2) := by
  rw [result, result, h.ending_eq, h.stderr_eq, h.stdout_eq, h.log_eq]
  cases settle out.1 out.2.guest.stderr with
  | error e => exact .error e
  | ok settled => exact .ok ⟨rfl, rfl, rfl, rfl, rfl, rfl, _, _, rfl, rfl, h.files_eq⟩

/-- A guest cannot tell snapshots apart that hold the same files within its directory if the
directory has none, or has something beside it in both or in neither. -/
theorem cannotTell_of_parentsAlike (config : EngineConfig) (surroundings : Surroundings)
    (h : SameView r.cwd files files') (hparents : ParentsAlike r.cwd files files') :
    CannotTell config surroundings r files files' := by
  have hplay := sameOutcome_play config surroundings h hparents
  refine ⟨hplay, ?_⟩
  rw [run, run]
  revert hplay
  generalize play config surroundings (r.withSnapshot files) = out
  generalize play config surroundings (r.withSnapshot files') = out'
  rintro (e | hrun)
  · exact .error e
  · exact sameOutcome_result hrun

end Engine

/-! ## The exception -/

theorem length_ofString_append (s s' : String) :
    (Bytes.ofString (s ++ s')).length = (Bytes.ofString s).length + (Bytes.ofString s').length := by
  simp [Bytes.ofString, String.toList_append]

/-- The paths of the files within a directory, relative to it. -/
def relativePaths (files : FileSet) (cwd : String) : List String :=
  files.keys.filterMap (Path.below? cwd)

theorem nodup_relativePaths (hroot : cwd ≠ "") : (relativePaths files cwd).Nodup := by
  refine List.Nodup.filterMap (fun p q rest hp hq => ?_) Std.ExtTreeMap.nodup_keys
  rw [(Path.below?_eq_some_iff hroot).1 hp, (Path.below?_eq_some_iff hroot).1 hq]

/-- The files inside a directory are those with a relative path. -/
theorem mem_relativePaths (hroot : cwd ≠ "") (hfree : FreeAbove files cwd) :
    p ∈ files ∧ isWithin cwd p ↔ ∃ rest ∈ relativePaths files cwd, p = cwd ++ "/" ++ rest := by
  simp only [relativePaths, List.mem_filterMap, Std.ExtTreeMap.mem_keys,
    Path.below?_eq_some_iff hroot]
  constructor
  · rintro ⟨hp, hwithin⟩
    rcases Path.isWithin_iff.1 hwithin with heq | heq | hbelow
    · exact absurd heq hroot
    · exact absurd heq (hfree p hp).1
    · obtain ⟨rest, rfl⟩ := Path.below_iff.1 hbelow
      exact ⟨rest, ⟨_, hp, rfl⟩, rfl⟩
  · rintro ⟨rest, ⟨_, hp, rfl⟩, rfl⟩
    exact ⟨hp, (Path.below_append cwd rest).isWithin⟩

/-- A guest that removes all files of its directory and makes it anew can tell whether something
stands beside it. -/
theorem parentsAlike_of_cannotTell (h : SameView cwd files files')
    (hlength : ∀ p ∈ files, (Bytes.ofString p).length < 2 ^ 32)
    (htell : ∀ rests, CannotTell roomy {} (remakingRequest cwd rests) files files') :
    ParentsAlike cwd files files' := by
  by_cases hempty : ∀ p ∈ files, ¬ isWithin cwd p
  · exact .inl hempty
  by_cases hparent : Path.parent cwd = ""
  · exact .inr (iff_of_true (.inl hparent) (.inl hparent))
  right
  have hroot : cwd ≠ "" := by
    rintro rfl
    exact hparent rfl
  have hrests := fun p => mem_relativePaths (p := p) hroot h.free
  have hrests' : ∀ p, p ∈ files' ∧ isWithin cwd p
      ↔ ∃ rest ∈ relativePaths files cwd, p = cwd ++ "/" ++ rest := by
    intro p
    rw [← hrests p, and_congr_left_iff]
    exact fun hp => (h.sameWithin.mem hp).symm
  have hne : relativePaths files cwd ≠ [] := by
    obtain ⟨p, hp⟩ := not_forall.1 hempty
    obtain ⟨hp, hwithin⟩ := Classical.not_imp.1 hp
    rw [not_not] at hwithin
    obtain ⟨rest, hrest, -⟩ := (hrests p).1 ⟨hp, hwithin⟩
    exact List.ne_nil_of_mem hrest
  have hshort : ∀ rest ∈ relativePaths files cwd, (Bytes.ofString rest).length < 2 ^ 32 := by
    intro rest hrest
    have hp := hlength _ ((hrests _).2 ⟨rest, hrest, rfl⟩).1
    rw [length_ofString_append] at hp
    omega
  obtain ⟨n, hlog, hn⟩ := log_remake h.wellFormed h.normal h.free hparent hne
    (nodup_relativePaths hroot) hshort hrests
  obtain ⟨n', hlog', hn'⟩ := log_remake h.wellFormed' h.normal h.free' hparent hne
    (nodup_relativePaths hroot) hshort hrests'
  -- the logs differ at most in the last answer
  have hsame := (htell (relativePaths files cwd)).play.map_eq (f := fun out => out.2.log)
    fun _ _ hrun => hrun.log_eq.symm
  rw [hlog, hlog', Except.ok.injEq, List.append_cancel_left_eq] at hsame
  have heq : n = n' := by simpa using hsame
  rw [← hn, ← hn', heq]

/-- Two snapshots with the same files within a directory cannot be told apart in it if the directory
has no files, or if files stand beside it in both or in neither. Otherwise a guest tells them apart
by removing its files and making its directory anew. -/
theorem cannotTell_iff_parentsAlike (h : SameView cwd files files') :
    (ParentsAlike cwd files files' → ∀ config surroundings r, r.cwd = cwd →
        CannotTell config surroundings r files files')
      ∧ ((∀ p ∈ files, (Bytes.ofString p).length < 2 ^ 32) →
        (∀ config surroundings r, r.cwd = cwd → CannotTell config surroundings r files files') →
          ParentsAlike cwd files files') := by
  constructor
  · rintro hparents config surroundings r rfl
    exact Engine.cannotTell_of_parentsAlike config surroundings h hparents
  · intro hlength htell
    exact parentsAlike_of_cannotTell h hlength fun rests => htell roomy {} _ rfl

/-- One file in a directory, and one beside the directory. -/
theorem sameView_insert {data : Bytes} (hnormal : IsNormal cwd) (hfiles : WellFormedFiles files)
    (hfree : FreeAbove files cwd) (hfiles' : WellFormedFiles (files.insert p data))
    (hfree' : FreeAbove (files.insert p data) cwd) (hp : isWithin cwd p = false) :
    SameView cwd files (files.insert p data) where
  normal := hnormal
  wellFormed := hfiles
  wellFormed' := hfiles'
  free := hfree
  free' := hfree'
  same q hq := by
    rw [Std.ExtTreeMap.getElem?_insert, if_neg]
    intro heq
    rw [Std.compare_eq_iff_eq] at heq
    rw [heq, hq] at hp
    contradiction

theorem sameView_root :
    SameView "w" ((∅ : FileSet).insert "w/f" []) (((∅ : FileSet).insert "w/f" []).insert "s" []) :=
  sameView_insert (by decide +kernel) (by decide +kernel) (by decide +kernel) (by decide +kernel)
    (by decide +kernel) (by decide +kernel)

/-- Nothing has to stand beside a directory in the root: a guest that makes `w` anew is not told
about `s`. -/
theorem cannotTell_in_root :
    SameView "w" ((∅ : FileSet).insert "w/f" []) (((∅ : FileSet).insert "w/f" []).insert "s" [])
      ∧ CannotTell roomy {} (remakingRequest "w" ["f"]) ((∅ : FileSet).insert "w/f" [])
        (((∅ : FileSet).insert "w/f" []).insert "s" []) :=
  ⟨sameView_root, (cannotTell_iff_parentsAlike sameView_root).1
    (.inr (iff_of_true (.inl rfl) (.inl rfl))) _ _ _ rfl⟩

/-- A directory with one file, alone in a directory of its own. -/
def lone : FileSet := (∅ : FileSet).insert "a/w/f" []

/-- The same with a file beside the directory. -/
def flanked : FileSet := lone.insert "a/s" []

/-- A program on one page that makes `a/w` anew. -/
def remakeFlanked : GuestRequest where
  module := .program { steps := remake ["f"] }
  cwd := "a/w"
  source := .snapshot lone

/-- A guest that makes `a/w` anew is told whether there is a file beside it. -/
theorem not_forall_cannotTell : ¬ ∀ (config : EngineConfig) (surroundings : Surroundings)
    (r : GuestRequest) (files files' : FileSet),
    SameView r.cwd files files' → CannotTell config surroundings r files files' := by
  intro hall
  have hview : SameView "a/w" lone flanked :=
    sameView_insert (by decide +kernel) (by decide +kernel) (by decide +kernel)
      (by decide +kernel) (by decide +kernel) (by decide +kernel)
  have hlogs := (hall {} {} remakeFlanked lone flanked hview).play.map_eq
    (f := fun out => out.2.log) fun _ _ hrun => hrun.log_eq.symm
  have hdiffer : ((Engine.play {} {} (remakeFlanked.withSnapshot lone)).map
        fun out => out.2.log).toOption
      ≠ ((Engine.play {} {} (remakeFlanked.withSnapshot flanked)).map
        fun out => out.2.log).toOption := by
    decide +kernel
  exact hdiffer (congrArg Except.toOption hlogs)

end Sandshell
