import Sandshell.Guest.Engine
import Sandshell.Proofs.Path.Below
import Sandshell.Proofs.Step

/-!
# Sets of files

Well-formed files have normal paths, and none stands above another one. Such a set is the same
whichever way it is put together.
-/

namespace Sandshell

/-- The paths of the files are normal, none is the root, and none lies below another one. -/
structure WellFormedFiles (files : FileSet) : Prop where
  normal : ∀ p ∈ files, Path.IsNormal p
  ne_root : ∀ p ∈ files, p ≠ ""
  not_below : ∀ p ∈ files, ∀ q ∈ files, ¬ Path.Below p q

/-- No file stands at a directory or above it. -/
def FreeAbove (files : FileSet) (directory : String) : Prop :=
  ∀ p ∈ files, p ≠ directory ∧ ¬ Path.Below p directory

/-- A file of a snapshot stands beside a directory, below the directory's parent; in the root none
has to. -/
def StandsBeside (files : FileSet) (directory : String) : Prop :=
  Path.parent directory = ""
    ∨ ∃ p ∈ files, ¬ Path.isWithin directory p ∧ Path.Below (Path.parent directory) p

variable {files : FileSet} {l : List (String × Bytes)} {directory : String}

/-- A file at the parent of a directory would stand above it. -/
theorem FreeAbove.parent_not_mem (h : FreeAbove files directory) (hfiles : WellFormedFiles files) :
    Path.parent directory ∉ files := by
  intro hmem
  rcases Path.no_slash_or_below_parent directory with hslash | hbelow
  · exact hfiles.ne_root _ hmem (Path.parent_of_no_slash hslash)
  · exact (h _ hmem).2 hbelow

/-- Files are well-formed if their paths are normal and none is below another one. -/
theorem wellFormedFiles_iff : WellFormedFiles files ↔ ∀ p ∈ files.keys,
    Path.IsNormal p ∧ p ≠ "" ∧ ∀ q ∈ files.keys, ¬ Path.Below p q := by
  simp only [Std.ExtTreeMap.mem_keys]
  constructor
  · intro h p hp
    exact ⟨h.normal p hp, h.ne_root p hp, h.not_below p hp⟩
  · intro h
    exact ⟨fun p hp => (h p hp).1, fun p hp => (h p hp).2.1, fun p hp => (h p hp).2.2⟩

instance (files : FileSet) : Decidable (WellFormedFiles files) :=
  decidable_of_iff _ wellFormedFiles_iff.symm

instance (files : FileSet) (directory : String) : Decidable (FreeAbove files directory) :=
  decidable_of_iff (∀ p ∈ files.keys, p ≠ directory ∧ ¬ Path.Below p directory)
    (by simp only [FreeAbove, Std.ExtTreeMap.mem_keys])

theorem mem_of_mem_toList {e : String × Bytes} (he : e ∈ files.toList) : e.1 ∈ files := by
  rw [Std.ExtTreeMap.mem_iff_isSome_getElem?, Std.ExtTreeMap.mem_toList_iff_getElem?_eq_some.1 he]
  rfl

/-- Inserting files of a set one by one gives what the set has at their paths. -/
theorem getElem?_foldl_insert (hsound : ∀ e ∈ l, files[e.1]? = some e.2) (m : FileSet)
    (p : String) :
    (l.foldl (fun (m : FileSet) (path, data) => m.insert path data) m)[p]?
      = if p ∈ l.map Prod.fst then files[p]? else m[p]? := by
  induction l generalizing m with
  | nil => rfl
  | cons e rest ih =>
    obtain ⟨path, data⟩ := e
    have hpath : files[path]? = some data := hsound (path, data) List.mem_cons_self
    rw [List.foldl_cons, ih fun e he => hsound e (List.mem_cons_of_mem _ he)]
    -- a later insertion of the same path stores the same contents
    by_cases hrest : p ∈ rest.map Prod.fst
    · simp [hrest]
    · rw [if_neg hrest, Std.ExtTreeMap.getElem?_insert]
      by_cases hp : path = p
      · simp [hp, ← hpath]
      · simp [hp, hrest, Ne.symm hp]

/-- Inserting all files of a set, in any order and with repetitions, into one without other paths
gives the set. -/
theorem foldl_insert_eq {m : FileSet} (hsound : ∀ e ∈ l, files[e.1]? = some e.2)
    (hcomplete : ∀ p ∈ files, p ∈ l.map Prod.fst) (hm : ∀ p ∈ m, p ∈ files) :
    l.foldl (fun (m : FileSet) (path, data) => m.insert path data) m = files := by
  apply Std.ExtTreeMap.ext_getElem?
  intro p
  rw [getElem?_foldl_insert hsound]
  by_cases hp : p ∈ l.map Prod.fst
  · rw [if_pos hp]
  · have hfile : p ∉ files := fun hmem => hp (hcomplete p hmem)
    rw [if_neg hp, Std.ExtTreeMap.getElem?_eq_none hfile,
      Std.ExtTreeMap.getElem?_eq_none fun hmem => hfile (hm p hmem)]

/-- Inserting all of them gives the set. -/
theorem foldl_insert_toList {m : FileSet} (hm : ∀ p ∈ m, p ∈ files) :
    files.toList.foldl (fun (m : FileSet) (path, data) => m.insert path data) m = files := by
  refine foldl_insert_eq (fun e he => ?_) (fun p hp => ?_) hm
  · exact Std.ExtTreeMap.mem_toList_iff_getElem?_eq_some.1 he
  · rw [Std.ExtTreeMap.map_fst_toList_eq_keys]
    exact Std.ExtTreeMap.mem_keys.2 hp

/-- The files inserted are there, and those that have been. -/
theorem mem_foldl_insert {m : FileSet} {p : String} :
    p ∈ l.foldl (fun (m : FileSet) (path, data) => m.insert path data) m
      ↔ p ∈ l.map Prod.fst ∨ p ∈ m := by
  induction l generalizing m with
  | nil => simp
  | cons e rest ih =>
    rw [List.foldl_cons, ih, Std.ExtTreeMap.mem_insert, Std.compare_eq_iff_eq, List.map_cons,
      List.mem_cons, ← or_assoc, eq_comm (a := e.1)]
    tauto

/-- What stands at a path after inserting was inserted, or stood there. -/
theorem of_getElem?_foldl_insert {m : FileSet} {p : String} {data : Bytes}
    (h : (l.foldl (fun (m : FileSet) (path, data) => m.insert path data) m)[p]? = some data) :
    (p, data) ∈ l ∨ m[p]? = some data := by
  induction l generalizing m with
  | nil => exact .inr h
  | cons e rest ih =>
    rcases ih h with hrest | hfirst
    · exact .inl (List.mem_cons_of_mem e hrest)
    · rw [Std.ExtTreeMap.getElem?_insert] at hfirst
      split at hfirst
      · next heq =>
        rw [Std.compare_eq_iff_eq] at heq
        rw [← heq, ← Option.some.inj hfirst]
        exact .inl List.mem_cons_self
      · exact .inr hfirst

theorem not_mem_empty {p : String} : p ∉ (∅ : FileSet) :=
  Std.ExtTreeMap.not_mem_empty

namespace GuestRequest

/-- Normalizing the paths of well-formed files leaves them alone. -/
theorem normalFiles_eq_ok (h : WellFormedFiles files) : normalFiles files = .ok files := by
  have hfile : ∀ e ∈ files.toList, normalFile e.1 e.2 = .ok e := by
    rintro ⟨path, data⟩ he
    have hmem : path ∈ files := mem_of_mem_toList he
    have hnormal : Path.normalize? path = some path := h.normal path hmem
    rw [normalFile, hnormal]
    exact if_neg (h.ne_root path hmem)
  have hall : files.toList.mapM (fun (path, data) => normalFile path data) = .ok files.toList := by
    generalize files.toList = l at hfile
    induction l with
    | nil => rfl
    | cons e rest ih =>
      have hfirst := hfile e List.mem_cons_self
      have hrest := ih fun e he => hfile e (List.mem_cons_of_mem _ he)
      obtain ⟨path, data⟩ := e
      rw [List.mapM_cons, hrest]
      dsimp only at hfirst ⊢
      rw [hfirst]
      rfl
  rw [normalFiles, hall]
  exact congrArg Except.ok (foldl_insert_toList fun p hp => absurd hp not_mem_empty)

/-- What stands at a normalized path stood at a path with that normal form. -/
theorem exists_of_normalFiles {start : FileSet} (h : normalFiles files = .ok start) {p : String}
    {data : Bytes} (hp : start[p]? = some data) :
    ∃ raw, files[raw]? = some data ∧ Path.normalize? raw = some p := by
  rw [normalFiles] at h
  cases hall : files.toList.mapM (fun (path, data) => normalFile path data) with
  | error e =>
    rw [hall] at h
    contradiction
  | ok normal =>
    rw [hall] at h
    obtain rfl := Except.ok.inj h
    have he : (p, data) ∈ normal :=
      (of_getElem?_foldl_insert hp).resolve_right (by rw [Std.ExtTreeMap.getElem?_empty]; nofun)
    obtain ⟨⟨raw, old⟩, hraw, hfile⟩ := exists_of_mem_mapM hall he
    dsimp only at hfile
    rw [normalFile] at hfile
    split at hfile
    · next hnormal =>
      split at hfile
      · contradiction
      · cases hfile
        exact ⟨raw, Std.ExtTreeMap.mem_toList_iff_getElem?_eq_some.1 hraw, hnormal⟩
    · contradiction

/-- Normalized files have normal paths. -/
theorem isNormal_of_normalFiles {start : FileSet} (h : normalFiles files = .ok start) :
    ∀ p ∈ start, Path.IsNormal p := by
  intro p hp
  obtain ⟨data, hdata⟩ := Option.isSome_iff_exists.1 (Std.ExtTreeMap.mem_iff_isSome_getElem?.1 hp)
  obtain ⟨raw, -, hnormal⟩ := exists_of_normalFiles h hdata
  exact Path.isNormal_of_normalize? hnormal

end GuestRequest

namespace Engine

/-- In a directory of the workspace and with files that can be normalized only the module can be
refused; its program is then run to its end. -/
theorem play_of_normalFiles {r : GuestRequest} {cwd : String} {start : FileSet}
    (config : EngineConfig) (surroundings : Surroundings) (hsource : r.source = .snapshot files)
    (hstart : GuestRequest.normalFiles files = .ok start)
    (hcwd : Path.normalize? r.cwd = some cwd) :
    play config surroundings r = (r.module.load config.maxMemory).map fun p =>
      Running.steps (p.memory = .asExpected) (p.bounds config.maxMemory)
        { guest := r.guest surroundings config p ⟨start, ∅⟩ cwd } p.steps := by
  have hdirectory : r.directory = .ok cwd := by
    rw [GuestRequest.directory, hcwd]
  rw [play, hsource]
  dsimp only
  rw [hdirectory, hstart]
  cases r.module.load config.maxMemory with
  | error e => rfl
  | ok p => rfl

/-- A play on well-formed files is its steps from where the program starts. -/
theorem play_eq {r : GuestRequest} (config : EngineConfig) (surroundings : Surroundings)
    (hsource : r.source = .snapshot files) (hfiles : WellFormedFiles files)
    (hcwd : Path.IsNormal r.cwd) :
    play config surroundings r = (r.module.load config.maxMemory).map fun p =>
      Running.steps (p.memory = .asExpected) (p.bounds config.maxMemory)
        { guest := r.guest surroundings config p ⟨files, ∅⟩ r.cwd } p.steps :=
  play_of_normalFiles config surroundings hsource (GuestRequest.normalFiles_eq_ok hfiles) hcwd

end Engine

end Sandshell
