import Sandshell.Proofs.Guest.Answer
import Sandshell.Proofs.Guest.Reach
import Sandshell.Proofs.Guest.Streams
import Sandshell.Proofs.Tree.Update

/-!
# Directories that a guest loses

A directory that is not recorded exists only through what lies below it. A guest that removes the
only file below such a directory removes the directory with it; no call makes a directory disappear
in any other way.
-/

namespace Sandshell

open Sandshell.Path (Below IsNormal)
open Relation (ReflTransGen)

/-! ## Trees -/

/-- The directory of the file exists through this file alone: it is neither the root nor recorded,
and nothing else lies below it. -/
structure Tree.Carries (t : Tree) (p : String) : Prop where
  mem : p ∈ t.files
  parent_ne_root : Path.parent p ≠ ""
  not_recorded : Path.parent p ∉ t.directories
  alone : ∀ q, t.IsKey q → Below (Path.parent p) q → q = p

/-- The same tree, or one that differs by one change. -/
def Tree.Revision (t t' : Tree) : Prop :=
  t' = t ∨ ∃ path, Tree.Edit path t t'

namespace Tree

variable {t t' : Tree} {p q d : String}

/-- The tree without a file. -/
def erase (t : Tree) (p : String) : Tree :=
  { t with files := t.files.erase p }

theorem mem_erase : q ∈ (t.erase p).files ↔ q ≠ p ∧ q ∈ t.files := by
  rw [erase, Std.ExtTreeMap.mem_erase, ne_eq, Std.compare_eq_iff_eq, eq_comm]

/-- Other keys stay where a file is taken out. -/
theorem isKey_erase (hq : t.IsKey q) (hne : q ≠ p) : (t.erase p).IsKey q :=
  hq.imp (fun hfile => mem_erase.2 ⟨hne, hfile⟩) id

/-- The directory of a removed file stays unless it existed through this file alone. -/
theorem WellFormed.isDirectory_parent_erase (h : t.WellFormed) (hp : p ∈ t.files) :
    (t.erase p).isDirectory (Path.parent p) ↔ ¬ t.Carries p := by
  constructor
  · intro hdirectory hcarries
    rcases isDirectory_iff.1 hdirectory with hroot | hmem | ⟨q, hq, hbelow⟩
    · exact hcarries.parent_ne_root hroot
    · exact hcarries.not_recorded hmem
    · have hold : t.IsKey q := hq.imp (fun hfile => (mem_erase.1 hfile).2) id
      obtain rfl := hcarries.alone q hold hbelow
      -- a file is not recorded as a directory
      rcases hq with hfile | hmem
      · exact (mem_erase.1 hfile).1 rfl
      · have hold : t.isDirectory q := isDirectory_of_mem hmem
        rw [h.file_not_directory q hp] at hold
        contradiction
  · intro hcarries
    rw [isDirectory_iff]
    by_contra hnone
    rw [not_or, not_or] at hnone
    obtain ⟨hroot, hmem, hbelow⟩ := hnone
    refine hcarries ⟨hp, hroot, hmem, fun q hq hlies => ?_⟩
    by_contra hne
    exact hbelow ⟨q, isKey_erase hq hne, hlies⟩

/-- If the directory of a removed file stays then all directories do. -/
theorem isDirectory_erase (hparent : (t.erase p).isDirectory (Path.parent p))
    (hd : t.isDirectory d) : (t.erase p).isDirectory d := by
  rcases isDirectory_iff.1 hd with rfl | hmem | ⟨q, hq, hbelow⟩
  · exact isDirectory_root _
  · exact isDirectory_of_mem hmem
  · by_cases hne : q = p
    · subst hne
      rcases hbelow.parent with heq | hbelow
      · exact heq ▸ hparent
      · exact isDirectory_of_below hparent hbelow
    · exact isDirectory_of_below_key (isKey_erase hq hne) hbelow

/-- A change keeps all directories if and only if it keeps each file that its directory exists
through. -/
theorem Edit.keeps_directories_iff (h : t.WellFormed) (hedit : Edit p t t') :
    (∀ d, t.isDirectory d → t'.isDirectory d) ↔ ∀ q, t.Carries q → q ∈ t'.files := by
  cases hedit with
  | remove hfile =>
    have hparent := h.isDirectory_parent_erase hfile
    constructor
    · intro hkeeps q hq
      refine mem_erase.2 ⟨?_, hq.mem⟩
      rintro rfl
      exact hparent.1 (hkeeps _ (isDirectory_parent (.inl hfile))) hq
    · intro hkeeps d hd
      exact isDirectory_erase (hparent.2 fun hp => (mem_erase.1 (hkeeps p hp)).1 rfl) hd
  | set hfile data =>
    exact iff_of_true (fun d hd => isDirectory_insertFile.2 (.inl hd))
      fun q hq => Std.ExtTreeMap.mem_insert.2 (.inr hq.mem)
  | create hnone hparent =>
    exact iff_of_true (fun d hd => isDirectory_insertFile.2 (.inl hd))
      fun q hq => Std.ExtTreeMap.mem_insert.2 (.inr hq.mem)
  | make hnone hparent =>
    exact iff_of_true (fun d hd => isDirectory_insertDirectory.2 (.inl hd)) fun q hq => hq.mem

/-- A file that was removed can be made again unless its directory is gone. -/
theorem WellFormed.createFile_erase (h : t.WellFormed) (hp : p ∈ t.files) :
    ((t.erase p).createFile p).isOk ↔ ¬ t.Carries p := by
  have hparent : Path.parent p ∉ (t.erase p).files := by
    intro hmem
    have hfile := h.file_not_directory _ (mem_erase.1 hmem).2
    rw [isDirectory_parent (.inl hp)] at hfile
    contradiction
  rw [← h.isDirectory_parent_erase hp, createFile]
  simp only [Std.ExtTreeMap.contains_iff_mem, if_neg hparent]
  cases (t.erase p).isDirectory (Path.parent p) <;> simp [Except.isOk, Except.toBool]

end Tree

/-! ## Calls -/

namespace Guest

variable {α β ε : Type} {g : Guest}

/-- The step leaves the files as they are, or changes them at one path. -/
def Revises (x : ExceptT ε (StateM Guest) α) : Prop :=
  ∀ g, Tree.Revision g.files (x g).2.files

/-- Leaving the files as they are goes on from step to step. -/
theorem frame_files : Frame fun g g' => g'.files = g.files where
  refl _ := rfl
  trans _ _ _ h h' := h'.trans h
  memory _ _ := rfl
  input _ _ := rfl
  drawn _ _ := rfl
  descriptors _ _ := rfl

/-- A step that leaves the files as they are makes no edit. -/
theorem revises_of_obeys {x : ExceptT ε (StateM Guest) α} (h : frame_files.law.Obeys x) :
    Revises x :=
  fun g => .inl (Law.obeys_along_iff.1 h g)

/-- Steps that leave the files alone, and then one that may change them. -/
theorem Revises.after {x : CallM α} {f : α → CallM β} (hx : frame_files.law.Obeys x)
    (hf : ∀ a, Revises (f a)) : Revises (x >>= f) := by
  intro g
  have hsame : (x g).2.files = g.files := Law.obeys_along_iff.1 hx g
  rw [bind_apply_snd]
  rcases hx : x g with ⟨e | a, g'⟩
  · rw [hx] at hsame
    exact .inl hsame
  · rw [hx] at hsame
    exact hsame ▸ hf a g'

/-- A step that may change the files, and then steps that leave them alone. -/
theorem Revises.before {x : CallM α} {f : α → CallM β} (hx : Revises x)
    (hf : ∀ a, frame_files.law.Obeys (f a)) : Revises (x >>= f) := by
  intro g
  have hchange := hx g
  rw [bind_apply_snd]
  rcases hx : x g with ⟨e | a, g'⟩
  · rwa [hx] at hchange
  · rw [hx] at hchange
    have hsame : (f a g').2.files = g'.files := Law.obeys_along_iff.1 (hf a) g'
    dsimp only
    rwa [hsame]

theorem Revises.ofStep {x : CallM α} (hx : Revises x) : Revises (liftM x : PanicM Guest α) :=
  hx

/-- A change that edits one path makes at most this one edit. -/
theorem revises_updateFiles {change : Tree → Except Errno Tree}
    (h : ∀ t t', change t = .ok t' → ∃ path, Tree.Edit path t t') :
    Revises (updateFiles change) := by
  intro g
  rw [updateFiles_apply]
  cases hchange : change g.files with
  | ok files => exact .inr (h _ _ hchange)
  | error e => exact .inl rfl

/-- Writing sets the contents of one file. -/
theorem revises_writeFile (fd : UInt32) (data : Bytes) : Revises (writeFile fd data) := by
  intro g
  have hdescriptor : descriptor? fd g = (.ok (g.descriptors.get? fd.toNat), g) := rfl
  rw [writeFile, bind_apply_ok hdescriptor]
  cases g.descriptors.get? fd.toNat with
  | none => exact .inl rfl
  | some d =>
    cases d with
    | directory path name => exact .inl rfl
    | file path offset append =>
      dsimp only
      rw [get_bind_apply]
      cases hold : g.files.files[path]? with
      | none => exact .inl rfl
      | some old =>
        have hmem : path ∈ g.files.files :=
          Std.ExtTreeMap.mem_iff_isSome_getElem?.2 (hold ▸ rfl)
        dsimp only
        generalize (if append then old.length else offset) = start
        split
        · exact .inl rfl
        split
        · exact .inl rfl
        · refine .inr ⟨path, ?_⟩
          show Tree.Edit path g.files (g.files.setFile path (overwrite old start data))
          rw [Tree.setFile_of_mem hmem]
          exact .set hmem _

/-- So does writing to a descriptor, whatever it stands for. -/
theorem revises_writeData (fd : UInt32) (data : Bytes) : Revises (writeData fd data) := by
  intro g
  show Tree.Revision g.files ((if fd = 0 then throw .badf else if fd = 1 then _
    else if fd = 2 then _ else writeFile fd data : CallM Unit) g).2.files
  -- a stream takes the data, and may be full then
  have hstream : ∀ (c : Prop) [Decidable c] (f : Guest → Guest), (∀ g, (f g).files = g.files) →
      Tree.Revision g.files ((modify f >>= fun _ => if c then throw .io else pure () :
        CallM Unit) g).2.files := by
    intro c _ f hf
    refine .inl ?_
    rw [bind_apply_ok (rfl : (modify f : CallM Unit) g = (.ok (), f g))]
    split
    · exact hf g
    · exact hf g
  split
  · exact .inl rfl
  split
  · exact hstream _ _ fun _ => rfl
  split
  · exact hstream _ _ fun _ => rfl
  · exact revises_writeFile fd data g

theorem revises_fdWrite (fd buffers count written : UInt32) :
    Revises (fdWrite fd buffers count written) := by
  rw [fdWrite_eq]
  exact .after (frame_files.buffered_obeys buffers count) fun data =>
    (revises_writeData fd data).before fun _ => frame_files.writeWord_obeys _ _

/-- Opening makes at most one file or truncates one. -/
theorem revises_pathOpen (fd path length openFlags fdFlags address : UInt32) :
    Revises (pathOpen fd path length openFlags fdFlags address) := by
  intro g
  rcases pathOpen_cases g fd path length openFlags fdFlags address
    with ⟨e, herror⟩ | ⟨hholds, resolved, flags, htarget, hflags, hfdFlags⟩
  · rw [herror]
    exact .inl rfl
  · rw [pathOpen_apply hholds htarget hflags hfdFlags]
    cases hopen : openEntry g.files resolved flags (fdFlags.toNat.testBit 0) with
    | error e => exact .inl rfl
    | ok opened =>
      obtain ⟨d, files⟩ := opened
      obtain ⟨-, hfiles⟩ := edit_of_openEntry hopen
      -- the files have changed whether or not there is a number left
      dsimp only
      cases g.descriptors.insert d with
      | error e => exact hfiles.imp id fun hedit => ⟨resolved, hedit⟩
      | ok inserted => exact hfiles.imp id fun hedit => ⟨resolved, hedit⟩

end Guest

namespace SystemCall

variable {g : Guest}

/-- Every call makes at most one edit. -/
theorem revises_answer (call : SystemCall) : Guest.Revises call.answer := by
  cases hcall : call.mayEdit with
  | false => exact Guest.revises_of_obeys (answer_obeys_of_mayEdit Guest.frame_files call hcall)
  | true =>
    cases call with
    | fdWrite fd buffers count written =>
      exact (Guest.revises_fdWrite fd buffers count written).ofStep
    | pathOpen fd path length openFlags fdFlags address =>
      exact (Guest.revises_pathOpen fd path length openFlags fdFlags address).ofStep
    | pathUnlinkFile fd path length =>
      exact (Guest.Revises.after (Guest.frame_files.resolve_obeys fd path length) fun resolved =>
        Guest.revises_updateFiles fun t t' h => ⟨resolved, Tree.edit_of_removeFile h⟩).ofStep
    | pathCreateDirectory fd path length =>
      exact (Guest.Revises.after (Guest.frame_files.resolve_obeys fd path length) fun resolved =>
        Guest.revises_updateFiles fun t t' h => ⟨resolved, Tree.edit_of_makeDirectory h⟩).ofStep
    | _ => contradiction

/-- A call changes the files at one path at most. -/
theorem revision_of_run (call : SystemCall) (exportsMemory : Bool) (g : Guest) :
    Tree.Revision g.files ((call.run exportsMemory).run g).2.files := by
  rcases run_snd call exportsMemory g with hsame | hanswer
  · rw [hsame]
    exact .inl rfl
  · rw [hanswer]
    exact revises_answer call g

end SystemCall

/-! ## Reachable guests -/

namespace Guest

variable {files : FileSet} {r : GuestRequest} {g g' : Guest}

/-- An act keeps all directories if and only if it keeps each file that its directory exists
through. -/
theorem Reached.keeps_directories_iff (h : Reached files r g) (hact : Act g g') :
    (∀ d, g.files.isDirectory d → g'.files.isDirectory d)
      ↔ ∀ q, g.files.Carries q → q ∈ g'.files.files := by
  have hrevision : Tree.Revision g.files g'.files := by
    cases hact with
    | own m => exact .inl rfl
    | call exportsMemory c => exact SystemCall.revision_of_run c exportsMemory g
  rcases hrevision with hsame | ⟨path, hedit⟩
  · rw [hsame]
    exact iff_of_true (fun d hd => hd) fun q hq => hq.mem
  · exact hedit.keeps_directories_iff h.wellFormed_files

/-- An act that keeps each file that its directory exists through. -/
structure Spares (g g' : Guest) : Prop where
  act : Act g g'
  keeps : ∀ q, g.files.Carries q → q ∈ g'.files.files

/-- By induction on the acts of a run. -/
theorem Reached.isDirectory_of_spares (h : Reached files r g) (hspares : ReflTransGen Spares g g')
    {d : String} (hd : g.files.isDirectory d) : g'.files.isDirectory d := by
  have hboth : Reached files r g' ∧ g'.files.isDirectory d := by
    induction hspares with
    | refl => exact ⟨h, hd⟩
    | tail _ hlast ih =>
      obtain ⟨hreached, hold⟩ := ih
      exact ⟨hreached.trans (.single hlast.act),
        (hreached.keeps_directories_iff hlast.act).2 hlast.keeps d hold⟩
  exact hboth.2

/-- Opening succeeds exactly if the entry at the resolved path can be opened. -/
theorem Opening.run_eq_zero_iff (o : Opening g) {resolved : String} (hg : g.mounted = false)
    (h : g.descriptors.resolve o.fd.toNat o.text = .ok resolved) :
    ((o.call.run true).run g).1 = .ok 0
      ↔ (openEntry g.files resolved o.flags o.append).isOk := by
  have hanswer := o.answer_eq h
  cases hopen : openEntry g.files resolved o.flags o.append with
  | error e =>
    rw [hopen] at hanswer
    rw [SystemCall.run_eq_number hanswer hg o.ending?_call]
    simp [Except.isOk, Except.toBool, e.number_ne_zero]
  | ok opened =>
    rw [hopen] at hanswer
    rw [SystemCall.run_eq_zero hanswer hg o.ending?_call]
    simp [Except.isOk, Except.toBool]

/-- Asking for a directory succeeds exactly where there is one. -/
theorem isOk_openEntry_of_directory {t : Tree} {path : String} {flags : OpenFlags} {append : Bool}
    (h : t.WellFormed) (hcreate : flags.create = false) (htruncate : flags.truncate = false)
    (hdirectory : flags.directory = true) :
    (openEntry t path flags append).isOk ↔ t.isDirectory path := by
  rw [openEntry, hcreate, htruncate, hdirectory]
  cases hkind : t.kind? path with
  | none =>
    rw [(Tree.kind?_eq_none_iff.1 hkind).2]
    simp [Except.isOk, Except.toBool]
  | some kind =>
    cases kind with
    | directory => simp [Tree.isDirectory_of_kind? hkind, Except.isOk, Except.toBool]
    | file => simp [h.file_not_directory path (Tree.mem_of_kind? hkind), Except.isOk, Except.toBool]

theorem isOk_openEntry_of_create {t : Tree} {path : String} {flags : OpenFlags} {append : Bool}
    (hnone : t.kind? path = none) (hcreate : flags.create = true)
    (hdirectory : flags.directory = false) :
    (openEntry t path flags append).isOk ↔ (t.createFile path).isOk := by
  rw [openEntry, hnone, hcreate, hdirectory]
  cases t.createFile path with
  | error e => simp [bind, Except.bind, Except.isOk, Except.toBool]
  | ok t' => simp [bind, Except.bind, pure, Except.pure, Except.isOk, Except.toBool]

/-- The directory that a guest started in can be opened as long as it is there. -/
theorem Reached.run_openRoot_iff (h : Reached files r g) (o : Opening g) {name : String}
    (hget : g.descriptors.get? o.fd.toNat = some (.directory r.cwd name)) (htext : o.text = ".")
    (hcreate : o.flags.create = false) (htruncate : o.flags.truncate = false)
    (hdirectory : o.flags.directory = true) :
    ((o.call.run true).run g).1 = .ok 0 ↔ g.files.isDirectory r.cwd := by
  rw [o.run_eq_zero_iff h.not_mounted (htext ▸ h.confined.resolve_dot hget)]
  exact isOk_openEntry_of_directory h.wellFormed_files hcreate htruncate hdirectory

/-- What has been unlinked was a file at the resolved path. -/
theorem pathUnlinkFile_eq_ok {fd path length : UInt32}
    (h : pathUnlinkFile fd path length g = (.ok (), g')) : ∃ resolved,
      g.target fd path length = .ok resolved ∧ resolved ∈ g.files.files
        ∧ g' = { g with files := g.files.erase resolved } := by
  cases htarget : g.target fd path length with
  | error e =>
    rw [pathUnlinkFile, resolve_bind_apply, htarget] at h
    cases h
  | ok resolved =>
    rw [pathUnlinkFile_apply htarget, Tree.removeFile] at h
    by_cases hfile : g.files.files.contains resolved
    · rw [if_pos hfile] at h
      cases h
      exact ⟨resolved, rfl, Std.ExtTreeMap.contains_iff_mem.1 hfile, rfl⟩
    · rw [if_neg hfile] at h
      cases h

/-- A file that was removed can be made again unless its directory existed through it alone. -/
theorem Reached.run_createAgain_iff (h : Reached files r g) {resolved : String}
    (hfile : resolved ∈ g.files.files) (o : Opening { g with files := g.files.erase resolved })
    (hresolve : g.descriptors.resolve o.fd.toNat o.text = .ok resolved)
    (hcreate : o.flags.create = true) (hdirectory : o.flags.directory = false) :
    ((o.call.run true).run { g with files := g.files.erase resolved }).1 = .ok 0
      ↔ ¬ g.files.Carries resolved := by
  have hgone : (g.files.erase resolved).kind? resolved = none := by
    refine Tree.kind?_eq_none_iff.2 ⟨fun hmem => (Tree.mem_erase.1 hmem).1 rfl, ?_⟩
    rw [Bool.eq_false_iff]
    intro hdirectory
    have hold : g.files.isDirectory resolved :=
      Tree.isDirectory_mono hdirectory (fun q hq => (Tree.mem_erase.1 hq).2) fun q hq => hq
    rw [h.wellFormed_files.file_not_directory _ hfile] at hold
    contradiction
  rw [o.run_eq_zero_iff h.not_mounted hresolve, isOk_openEntry_of_create hgone hcreate hdirectory]
  exact h.wellFormed_files.createFile_erase hfile

/-- A guest loses a directory only with the file that it exists through. No other call makes one
disappear, in a run without such a call all directories stay, the directory that the guest started
in can be opened as long as it is there, and what was removed can be made again but for such a
file. -/
theorem Reached.loses_directory_iff (h : Reached files r g) :
    (∀ exportsMemory (call : SystemCall),
        (∀ d, g.files.isDirectory d → ((call.run exportsMemory).run g).2.files.isDirectory d)
          ↔ ∀ q, g.files.Carries q → q ∈ ((call.run exportsMemory).run g).2.files.files)
      ∧ (∀ g' d, ReflTransGen Spares g g' → g.files.isDirectory d → g'.files.isDirectory d)
      ∧ (∀ (o : Opening g) (name : String),
        g.descriptors.get? o.fd.toNat = some (.directory r.cwd name) → o.text = "." →
        o.flags.create = false → o.flags.truncate = false → o.flags.directory = true →
          (((o.call.run true).run g).1 = .ok 0 ↔ g.files.isDirectory r.cwd))
      ∧ ∀ exportsMemory fd path length g',
        ((SystemCall.pathUnlinkFile fd path length).run exportsMemory).run g = (.ok 0, g') →
        ∃ resolved, g.target fd path length = .ok resolved
          ∧ ∀ o : Opening g', g'.descriptors.resolve o.fd.toNat o.text = .ok resolved →
            o.flags.create = true → o.flags.directory = false →
              (((o.call.run true).run g').1 = .ok 0 ↔ ¬ g.files.Carries resolved) := by
  refine ⟨fun exportsMemory call => h.keeps_directories_iff (.call exportsMemory call),
    fun g' d hspares => h.isDirectory_of_spares hspares,
    fun o name hget htext hcreate htruncate hdirectory =>
      h.run_openRoot_iff o hget htext hcreate htruncate hdirectory, ?_⟩
  intro exportsMemory fd path length g' hunlink
  obtain ⟨resolved, htarget, hfile, rfl⟩ := 
    pathUnlinkFile_eq_ok (PanicM.of_liftM_apply_eq_ok (SystemCall.answer_of_run hunlink))
  exact ⟨resolved, htarget, fun o hresolve hcreate hdirectory =>
    h.run_createAgain_iff hfile o hresolve hcreate hdirectory⟩

/-- A directory with two files. -/
def twoFiles : FileSet :=
  ((∅ : FileSet).insert "d/f" []).insert "d/s" []

/-- A guest may remove one of two files; all directories stay. -/
theorem keeps_directories_twoFiles : Reached twoFiles (inRoot twoFiles) (startWith twoFiles "d/f")
    ∧ ∀ d, (startWith twoFiles "d/f").files.isDirectory d →
      (((SystemCall.pathUnlinkFile 3 0 3).run true).run
        (startWith twoFiles "d/f")).2.files.isDirectory d := by
  have hreached : Reached twoFiles (inRoot twoFiles) (startWith twoFiles "d/f") :=
    reached_startWith (by decide +kernel) "d/f"
  refine ⟨hreached, (hreached.loses_directory_iff.1 true (.pathUnlinkFile 3 0 3)).2 fun q hq => ?_⟩
  -- each of the two files has the other one beside it
  have hmem := hq.mem
  simp only [startWith, GuestRequest.guest_files_files, twoFiles, Std.ExtTreeMap.mem_insert,
    Std.compare_eq_iff_eq] at hmem
  rcases hmem with rfl | rfl | hmem
  · exact absurd (hq.alone "d/f" (.inl (by decide +kernel)) (by decide +kernel)) (by decide)
  · exact absurd (hq.alone "d/s" (.inl (by decide +kernel)) (by decide +kernel)) (by decide)
  · exact absurd hmem Std.ExtTreeMap.not_mem_empty

/-- A guest that removes the only file of a directory loses the directory. -/
theorem not_forall_keeps_directories : ¬ ∀ (files : FileSet) (r : GuestRequest) (g : Guest),
    Reached files r g → ∀ exportsMemory (call : SystemCall) d, g.files.isDirectory d →
      ((call.run exportsMemory).run g).2.files.isDirectory d := by
  intro hall
  have hfiles : WellFormedFiles ((∅ : FileSet).insert "d/f" []) := by decide +kernel
  have hreached := reached_startWith hfiles "d/f"
  have hlost := hall _ _ _ hreached true (.pathUnlinkFile 3 0 3) "d" (by decide +kernel)
  revert hlost
  decide +kernel

end Guest

end Sandshell
