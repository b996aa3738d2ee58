import Sandshell.Proofs.Guest.Answer
import Sandshell.Proofs.Guest.Confinement

/-!
# A guest that makes its directory anew

A program that removes all files of its directory and then makes the directory can tell from the
answer whether the directory's parent still stands.
-/

namespace Sandshell

open Sandshell.Path (Below IsNormal isWithin)

variable {root text path : String} {r : Running}

/-- Stores a path and passes it to a call, relative to the directory that the guest starts in. -/
def callWith (call : (fd path length : UInt32) → SystemCall) (text : String) : List Step :=
  [.poke 0 (Bytes.ofString text), .call (call 3 0 (UInt32.ofNat (Bytes.ofString text).length))]

/-- Removes files, then makes the directory that the guest starts in. -/
def remake (paths : List String) : List Step :=
  paths.flatMap (callWith .pathUnlinkFile) ++ callWith .pathCreateDirectory "."

/-- A guest on a snapshot with all the memory there can be, and nothing open but its directory. -/
structure Ready (root : String) (g : Guest) : Prop where
  descriptors_eq : g.descriptors = .ofRoot root
  size_eq : g.memory.size = 2 ^ 32
  not_mounted : g.mounted = false

/-- The guest after a text was stored at the start of its memory. -/
def Guest.withText (g : Guest) (text : String) : Guest :=
  { g with memory := g.memory.store 0 (Bytes.ofString text) }

theorem Ready.withText {g : Guest} (h : Ready root g) (text : String) :
    Ready root (g.withText text) :=
  ⟨h.descriptors_eq, (GuestMemory.size_store _ _ _).trans h.size_eq, h.not_mounted⟩

theorem Ready.withFiles {g : Guest} (h : Ready root g) (files : Tree) :
    Ready root (g.withFiles files) :=
  ⟨h.descriptors_eq, h.size_eq, h.not_mounted⟩

/-- A text that was stored is resolved. -/
theorem Ready.resolve {g : Guest} (h : Ready root g) (hlength : (Bytes.ofString text).length < 2 ^ 32)
    (hpath : (DescriptorTable.ofRoot root).resolve 3 text = .ok path) :
    Guest.resolve 3 0 (UInt32.ofNat (Bytes.ofString text).length) (g.withText text)
      = (.ok path, g.withText text) := by
  have hnat : (UInt32.ofNat (Bytes.ofString text).length).toNat = (Bytes.ofString text).length :=
    UInt32.toNat_ofNat_of_lt' hlength
  have hholds : g.memory.holds 0 (Bytes.ofString text).length := by
    simpa [GuestMemory.holds, h.size_eq] using hlength.le
  have htext : (g.withText text).memory.textAt (0 : UInt32).toNat
      (UInt32.ofNat (Bytes.ofString text).length).toNat = .ok text := by
    rw [hnat]
    exact GuestMemory.textAt_store hholds
  rw [Guest.resolve_apply, Guest.target, htext]
  show (.mk ((g.withText text).descriptors.resolve 3 text) (g.withText text) : _ × _) = _
  rw [(h.withText text).descriptors_eq, hpath]

/-- There is room for the text. -/
theorem Ready.step_poke (h : Ready root r.guest) (hlength : (Bytes.ofString text).length < 2 ^ 32)
    (bounds : MemoryBounds) :
    Running.step true bounds r (.poke 0 (Bytes.ofString text))
      = (.ok .done, { r with guest := r.guest.withText text, log := r.log ++ [.done] }) := by
  have hholds : r.guest.memory.holds 0 (Bytes.ofString text).length := by
    simpa [GuestMemory.holds, h.size_eq] using hlength.le
  exact if_pos hholds

/-- The answer of a call that resolves a path and then changes the files. -/
theorem Ready.answer_eq {g : Guest} {call : SystemCall} {change : String → Tree → Except Errno Tree}
    (h : Ready root g)
    (hcall : call.answer = liftM (do
      let resolved ← Guest.resolve 3 0 (UInt32.ofNat (Bytes.ofString text).length)
      Guest.updateFiles (change resolved) : CallM Unit))
    (hlength : (Bytes.ofString text).length < 2 ^ 32)
    (hpath : (DescriptorTable.ofRoot root).resolve 3 text = .ok path) :
    call.answer (g.withText text) = match change path g.files with
      | .ok files => (.ok (), (g.withText text).withFiles files)
      | .error e => (.error (.errno e), g.withText text) := by
  have hsteps : (do
      let resolved ← Guest.resolve 3 0 (UInt32.ofNat (Bytes.ofString text).length)
      Guest.updateFiles (change resolved) : CallM Unit) (g.withText text)
        = Guest.updateFiles (change path) (g.withText text) :=
    bind_apply_ok (h.resolve hlength hpath)
  have hfiles : (g.withText text).files = g.files := rfl
  rw [Guest.updateFiles_apply, hfiles] at hsteps
  rw [hcall]
  cases hchange : change path g.files with
  | ok files =>
    rw [hchange] at hsteps
    exact PanicM.liftM_apply_ok hsteps
  | error e =>
    rw [hchange] at hsteps
    exact PanicM.liftM_apply_error hsteps

/-- What the two steps do, for a call that resolves a path and then changes the files. -/
theorem steps_callWith (call : (fd path length : UInt32) → SystemCall)
    (change : String → Tree → Except Errno Tree) (h : Ready root r.guest)
    (hcall : ∀ fd path length, (call fd path length).answer = liftM (do
      let resolved ← Guest.resolve fd path length
      Guest.updateFiles (change resolved) : CallM Unit))
    (hending : ∀ fd path length, (call fd path length).ending? false = none)
    (hlength : (Bytes.ofString text).length < 2 ^ 32)
    (hpath : (DescriptorTable.ofRoot root).resolve 3 text = .ok path) (bounds : MemoryBounds)
    (program : List Step) :
    Running.steps true bounds r (callWith call text ++ program)
      = match change path r.guest.files with
        | .ok files => Running.steps true bounds
          ⟨(r.guest.withText text).withFiles files, 0, r.log ++ [.done] ++ [.errno 0]⟩ program
        | .error e => Running.steps true bounds
          ⟨r.guest.withText text, e.number, r.log ++ [.done] ++ [.errno e.number]⟩ program := by
  have hanswer := h.answer_eq (hcall 3 0 _) hlength hpath
  -- two steps are unfolded: the text is stored, then the call answers
  rw [callWith, List.cons_append, List.cons_append, List.nil_append, Running.steps,
    h.step_poke hlength]
  dsimp only
  rw [Running.steps, Running.step]
  dsimp only
  rw [SystemCall.run_apply, (h.withText text).not_mounted, hending, hanswer]
  cases change path r.guest.files with
  | ok files => rfl
  | error e => rfl

/-- Removing files one after the other leaves the others, and takes the same answers on the way. -/
theorem steps_unlink {rests : List String} (h : Ready root r.guest) (hroot : root ≠ "")
    (hnodup : rests.Nodup)
    (hrests : ∀ rest ∈ rests, IsNormal (root ++ "/" ++ rest)
      ∧ (Bytes.ofString rest).length < 2 ^ 32 ∧ root ++ "/" ++ rest ∈ r.guest.files.files)
    (bounds : MemoryBounds) (program : List Step) :
    ∃ r', Running.steps true bounds r (rests.flatMap (callWith .pathUnlinkFile) ++ program)
        = Running.steps true bounds r' program
      ∧ Ready root r'.guest ∧ r'.guest.files.directories = r.guest.files.directories
      ∧ (∀ p, p ∈ r'.guest.files.files
        ↔ p ∈ r.guest.files.files ∧ ∀ rest ∈ rests, p ≠ root ++ "/" ++ rest)
      ∧ r'.log = r.log ++ rests.flatMap fun _ => [.done, .errno 0] := by
  induction rests generalizing r with
  | nil => exact ⟨r, rfl, h, rfl, by simp, by simp⟩
  | cons rest rests ih =>
    obtain ⟨hnormal, hlength, hmem⟩ := hrests rest List.mem_cons_self
    obtain ⟨hfresh, hnodup⟩ := List.nodup_cons.1 hnodup
    have hpath := DescriptorTable.resolve_below hroot hnormal
    have hremove : r.guest.files.removeFile (root ++ "/" ++ rest)
        = .ok { r.guest.files with files := r.guest.files.files.erase (root ++ "/" ++ rest) } :=
      if_pos (Std.ExtTreeMap.contains_iff_mem.2 hmem)
    have hstep := steps_callWith .pathUnlinkFile (fun path t => t.removeFile path) h
      (fun _ _ _ => rfl) (fun _ _ _ => rfl) hlength hpath bounds
      (rests.flatMap (callWith .pathUnlinkFile) ++ program)
    rw [hremove] at hstep
    rw [List.flatMap_cons, List.append_assoc, hstep]
    dsimp only
    have hready := (h.withText rest).withFiles
      { r.guest.files with files := r.guest.files.files.erase (root ++ "/" ++ rest) }
    -- the names differ, so the other files are still there
    have hleft : ∀ rest' ∈ rests, IsNormal (root ++ "/" ++ rest')
        ∧ (Bytes.ofString rest').length < 2 ^ 32
        ∧ root ++ "/" ++ rest' ∈ r.guest.files.files.erase (root ++ "/" ++ rest) := by
      intro rest' hrest'
      obtain ⟨hnormal', hlength', hmem'⟩ := hrests rest' (List.mem_cons_of_mem _ hrest')
      refine ⟨hnormal', hlength', ?_⟩
      rw [Std.ExtTreeMap.mem_erase, ne_eq, Std.compare_eq_iff_eq]
      refine ⟨fun heq => hfresh ?_, hmem'⟩
      rwa [(String.append_right_inj _).1 heq]
    obtain ⟨r', hsteps, hready', hdirectories, hfiles, hlog⟩ :=
      ih (r := ⟨_, 0, r.log ++ [.done] ++ [.errno 0]⟩) hready hnodup hleft
    refine ⟨r', hsteps, hready', hdirectories, fun p => ?_, ?_⟩
    · rw [hfiles]
      show p ∈ r.guest.files.files.erase _ ∧ _ ↔ _
      rw [Std.ExtTreeMap.mem_erase, ne_eq, Std.compare_eq_iff_eq, List.forall_mem_cons, eq_comm,
        and_assoc, and_left_comm]
    · rw [hlog]
      simp

/-! ## The run -/

namespace GuestRequest

/-- The request on a snapshot of other files. -/
def withSnapshot (r : GuestRequest) (files : FileSet) : GuestRequest :=
  { r with source := .snapshot files }

end GuestRequest

/-- As much memory as there can be. -/
def roomy : EngineConfig := { maxMemory := 2 ^ 32 }

/-- A program that makes its directory anew. -/
def remaking (rests : List String) : GuestProgram where
  steps := remake rests
  pages := maxPages

/-- The run of the program in a directory. -/
def remakingRequest (cwd : String) (rests : List String) : GuestRequest where
  module := .program (remaking rests)
  cwd
  source := .snapshot ∅

variable {files : FileSet} {cwd : String} {rests : List String} {t : Tree}

/-- When the files within a directory are gone, the directory can be made if something stands beside
it. -/
theorem makeDirectory_of_emptied (hfiles : WellFormedFiles files) (hfree : FreeAbove files cwd)
    (hparent : Path.parent cwd ≠ "") (hdirectories : t.directories = ∅)
    (hmem : ∀ p, p ∈ t.files ↔ p ∈ files ∧ ¬ isWithin cwd p) :
    (StandsBeside files cwd ∧ ∃ t', t.makeDirectory cwd = .ok t')
      ∨ (¬ StandsBeside files cwd ∧ t.makeDirectory cwd = .error .noent) := by
  have hroot : cwd ≠ "" := by
    rintro rfl
    exact hparent rfl
  have hkey : ∀ p, t.IsKey p ↔ p ∈ files ∧ ¬ isWithin cwd p := by
    intro p
    rw [Tree.IsKey, hmem, hdirectories]
    exact or_iff_left Std.ExtTreeSet.not_mem_empty
  have hnone : t.kind? cwd = none := by
    rw [Tree.kind?_eq_none_iff, Bool.eq_false_iff, ne_eq, Tree.isDirectory_iff, hmem, hdirectories]
    refine ⟨fun h => (hfree cwd h.1).1 rfl, ?_⟩
    rintro (heq | hempty | ⟨p, hp, hbelow⟩)
    · exact hroot heq
    · exact Std.ExtTreeSet.not_mem_empty hempty
    · exact ((hkey p).1 hp).2 hbelow.isWithin
  -- the parent stays only for the sake of a file beside what is gone
  have hbeside : t.isDirectory (Path.parent cwd) ↔ StandsBeside files cwd := by
    rw [Tree.isDirectory_iff, hdirectories, StandsBeside]
    refine or_congr_right ((or_iff_right Std.ExtTreeSet.not_mem_empty).trans ?_)
    exact exists_congr fun p => by rw [hkey, and_assoc]
  have hcontains : t.files.contains (Path.parent cwd) = false := by
    rw [Bool.eq_false_iff, ne_eq, Std.ExtTreeMap.contains_iff_mem, hmem]
    exact fun h => hfree.parent_not_mem hfiles h.1
  by_cases hstands : t.isDirectory (Path.parent cwd)
  · refine .inl ⟨hbeside.1 hstands, { t with directories := t.directories.insert cwd }, ?_⟩
    simp [Tree.makeDirectory, hroot, hnone, hstands]
  · refine .inr ⟨fun h => hstands (hbeside.2 h), ?_⟩
    simp [Tree.makeDirectory, hroot, hnone, hstands, hcontains]

/-- A program with everything in order is loaded. -/
theorem GuestModule.load_eq_ok {p : GuestProgram} {ceiling : Nat} (hdeclares : p.declaresMemory)
    (hmemory : p.memory = .asExpected) (hstart : p.start = .asExpected)
    (hmatched : p.mismatched = false) (hceiling : p.pages * pageSize ≤ ceiling) :
    (GuestModule.program p).load ceiling = .ok p := by
  have hgranted : (p.pages ≠ 0 && decide (ceiling < p.pages * pageSize)) = false := by
    rw [decide_eq_false (Nat.not_lt.2 hceiling), Bool.and_false]
  rw [load, hdeclares, hmemory, hstart, hmatched, hgranted]
  rfl

/-- The program loads where there is memory for its text. -/
theorem load_remaking (rests : List String) :
    (GuestModule.program (remaking rests)).load roomy.maxMemory = .ok (remaking rests) := by
  have hceiling : maxPages * pageSize ≤ roomy.maxMemory := by decide
  have hdeclares : (remaking rests).declaresMemory = true := by
    simp [GuestProgram.declaresMemory, remaking]
  exact GuestModule.load_eq_ok hdeclares rfl rfl rfl hceiling

/-- It starts with the paths of its steps in reach. -/
theorem ready_remaking (rests : List String) (files : FileSet) (cwd : String) :
    Ready cwd (((remakingRequest cwd rests).withSnapshot files).guest {} roomy (remaking rests)
      ⟨files, ∅⟩ cwd) := by
  refine ⟨rfl, ?_, rfl⟩
  show maxPages * pageSize = 2 ^ 32
  decide

/-- Playing it means taking its steps one by one. -/
theorem play_remaking (rests : List String) (hfiles : WellFormedFiles files)
    (hcwd : IsNormal cwd) :
    Engine.play roomy {} ((remakingRequest cwd rests).withSnapshot files)
      = .ok (Running.steps true ((remaking rests).bounds (2 ^ 32))
        ⟨((remakingRequest cwd rests).withSnapshot files).guest {} roomy (remaking rests)
          ⟨files, ∅⟩ cwd, 0, []⟩ (remake rests)) := by
  rw [Engine.play_eq (r := (remakingRequest cwd rests).withSnapshot files) roomy {} rfl hfiles hcwd]
  show Except.map _ ((GuestModule.program (remaking rests)).load roomy.maxMemory) = _
  rw [load_remaking]
  rfl

/-- Removing all files within a directory and making it anew answers zero at the end exactly if
something stands beside it, and takes the same answers on the way in any case. -/
theorem log_remake (hfiles : WellFormedFiles files) (hcwd : IsNormal cwd)
    (hfree : FreeAbove files cwd) (hparent : Path.parent cwd ≠ "") (hne : rests ≠ [])
    (hnodup : rests.Nodup) (hlength : ∀ rest ∈ rests, (Bytes.ofString rest).length < 2 ^ 32)
    (hrests : ∀ p, p ∈ files ∧ isWithin cwd p ↔ ∃ rest ∈ rests, p = cwd ++ "/" ++ rest) :
    ∃ n, (Engine.play roomy {} ((remakingRequest cwd rests).withSnapshot files)).map
        (fun out => out.2.log)
          = .ok ((rests.flatMap fun _ => [.done, .errno 0]) ++ [.done] ++ [.errno n])
      ∧ (n = 0 ↔ StandsBeside files cwd) := by
  have hroot : cwd ≠ "" := by
    rintro rfl
    exact hparent rfl
  have hfile : ∀ rest ∈ rests, cwd ++ "/" ++ rest ∈ files := by
    intro rest hrest
    exact ((hrests _).2 ⟨rest, hrest, rfl⟩).1
  -- a file below the directory shows it, so nothing is recorded at the start
  have hstart : ((((remakingRequest cwd rests).withSnapshot files).guest {} roomy (remaking rests)
      ⟨files, ∅⟩ cwd)).files = ⟨files, ∅⟩ := by
    obtain ⟨rest, hrest⟩ := List.exists_mem_of_ne_nil rests hne
    exact Tree.ensureDirectory_eq_self
      (Tree.isDirectory_of_below_key (.inl (hfile rest hrest)) (Path.below_append cwd rest))
  have hready := ready_remaking rests files cwd
  rw [play_remaking rests hfiles hcwd]
  generalize ((remakingRequest cwd rests).withSnapshot files).guest {} roomy (remaking rests)
    ⟨files, ∅⟩ cwd = g at hstart hready ⊢
  have hmem : ∀ rest ∈ rests, IsNormal (cwd ++ "/" ++ rest)
      ∧ (Bytes.ofString rest).length < 2 ^ 32 ∧ cwd ++ "/" ++ rest ∈ g.files.files := by
    intro rest hrest
    rw [hstart]
    exact ⟨hfiles.normal _ (hfile rest hrest), hlength rest hrest, hfile rest hrest⟩
  -- first all files are removed
  obtain ⟨r', hsteps, hready', hdirectories, hleft, hlog⟩ :=
    steps_unlink (r := ⟨g, 0, []⟩) hready hroot hnodup hmem ((remaking rests).bounds (2 ^ 32))
      (callWith .pathCreateDirectory ".")
  dsimp only at hdirectories hleft
  rw [hstart] at hdirectories hleft
  have hemptied : ∀ p, p ∈ r'.guest.files.files ↔ p ∈ files ∧ ¬ isWithin cwd p := by
    intro p
    rw [hleft]
    refine and_congr_right fun hp => ⟨fun h hwithin => ?_, fun h rest hrest heq => h ?_⟩
    · obtain ⟨rest, hrest, heq⟩ := (hrests p).1 ⟨hp, hwithin⟩
      exact h rest hrest heq
    · exact ((hrests p).2 ⟨rest, hrest, heq⟩).2
  -- then the directory is made
  have hdot : (Bytes.ofString ".").length < 2 ^ 32 := by decide
  have hmake := steps_callWith .pathCreateDirectory (fun path t => t.makeDirectory path) hready'
    (fun _ _ _ => rfl) (fun _ _ _ => rfl) hdot
    ((DescriptorTable.confined_ofRoot hcwd).resolve_dot (DescriptorTable.get?_ofRoot cwd))
    ((remaking rests).bounds (2 ^ 32)) []
  rw [List.append_nil] at hmake
  rw [remake, hsteps, hmake]
  rcases makeDirectory_of_emptied hfiles hfree hparent hdirectories hemptied with
    ⟨hbeside, t', hok⟩ | ⟨hbeside, herror⟩
  · refine ⟨0, ?_, iff_of_true rfl hbeside⟩
    rw [hok, hlog]
    rfl
  · refine ⟨44, ?_, iff_of_false (by decide) hbeside⟩
    rw [herror, hlog]
    rfl

end Sandshell
