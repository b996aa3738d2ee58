import Sandshell.Proofs.Bundle.Snapshot

/-!
# One view of files

A workspace made of a set of files and a guest that starts with the same files show the same at
every path: the files of the set, the directories on the way to them, and nothing else. A snapshot of
the workspace hands the guest that very set.
-/

namespace Sandshell

open Sandshell.Path (Below IsName IsNormal)

/-- What a path is to a set of files. -/
inductive Standing where
  | file (data : Bytes)
  | directory
  | nothing
deriving DecidableEq

namespace Standing

def kind? : Standing → Option EntryKind
  | .file _ => some .file
  | .directory => some .directory
  | .nothing => none

def contents? : Standing → Option Bytes
  | .file data => some data
  | .directory | .nothing => none

def stat? : Standing → Option Stat
  | .file data => some ⟨.file, data.length⟩
  | .directory => some ⟨.directory, 0⟩
  | .nothing => none

/-- The answer to reading a path. -/
def read (path : String) : Standing → Except WorkspaceError Bytes
  | .file data => .ok data
  | .directory => .error (.isADirectory path)
  | .nothing => .error (.notFound path)

end Standing

variable {files : FileSet} {p d : String}

/-- A path of the set is a file, and the root and what a file lies below are directories. -/
def standing (files : FileSet) (path : String) : Standing :=
  match files[path]? with
  | some data => .file data
  | none => if path = "" ∨ ∃ p ∈ files.keys, Below path p then .directory else .nothing

namespace Tree

/-! ## Files by themselves -/

/-- A workspace of given files has them, and no recorded directory. -/
theorem ofFiles_toList (files : FileSet) : ofFiles files.toList = ⟨files, ∅⟩ := by
  rw [ofFiles, foldl_insert_toList fun p hp => absurd hp not_mem_empty]

/-- Without recorded directories those above the files are all there are. -/
theorem isDirectory_of_files :
    (⟨files, ∅⟩ : Tree).isDirectory p ↔ p = "" ∨ ∃ q ∈ files.keys, Below p q := by
  rw [isDirectory_iff]
  simp only [IsKey, Std.ExtTreeSet.not_mem_empty, or_false, false_or, Std.ExtTreeMap.mem_keys]

/-- Whether a path is a directory is asked where no file stands. -/
theorem standing_cases (files : FileSet) (p : String) :
    (∃ data, files[p]? = some data ∧ standing files p = .file data)
      ∨ files[p]? = none ∧ (⟨files, ∅⟩ : Tree).isDirectory p = true ∧ standing files p = .directory
      ∨ files[p]? = none ∧ (⟨files, ∅⟩ : Tree).isDirectory p = false
        ∧ standing files p = .nothing := by
  cases hfile : files[p]? with
  | some data => exact .inl ⟨data, rfl, by rw [standing, hfile]⟩
  | none =>
    right
    cases hdirectory : (⟨files, ∅⟩ : Tree).isDirectory p with
    | true =>
      refine .inl ⟨rfl, rfl, ?_⟩
      rw [standing, hfile]
      exact if_pos (isDirectory_of_files.1 hdirectory)
    | false =>
      refine .inr ⟨rfl, rfl, ?_⟩
      rw [standing, hfile]
      exact if_neg fun h => absurd (isDirectory_of_files.2 h) (by simp [hdirectory])

/-- What stands at a path follows from the files alone. -/
theorem kind?_of_files (files : FileSet) (p : String) :
    (⟨files, ∅⟩ : Tree).kind? p = (standing files p).kind? := by
  rw [kind?, Std.ExtTreeMap.contains_eq_isSome_getElem?]
  rcases standing_cases files p with ⟨data, hfile, hs⟩ | ⟨hfile, hdirectory, hs⟩ |
    ⟨hfile, hdirectory, hs⟩
  · rw [hfile, hs]; rfl
  · rw [hfile, hdirectory, hs]; rfl
  · rw [hfile, hdirectory, hs]; rfl

/-- So does what a file holds. -/
theorem contents?_of_files (files : FileSet) (p : String) :
    files[p]? = (standing files p).contents? := by
  rcases standing_cases files p with ⟨data, hfile, hs⟩ | ⟨hfile, -, hs⟩ | ⟨hfile, -, hs⟩
  · rw [hfile, hs]; rfl
  · rw [hfile, hs]; rfl
  · rw [hfile, hs]; rfl

/-- Asking for a normal path shows what stands there. -/
theorem stat_of_files (hp : IsNormal p) :
    (⟨files, ∅⟩ : Tree).stat p = .ok (standing files p).stat? := by
  rw [stat, normalize_of_isNormal hp]
  show (match files[p]? with | some data => _ | none => _ : Except WorkspaceError (Option Stat)) = _
  rcases standing_cases files p with ⟨data, hfile, hs⟩ | ⟨hfile, hdirectory, hs⟩ |
    ⟨hfile, hdirectory, hs⟩
  · rw [hfile, hs]; rfl
  · rw [hfile, hdirectory, hs]; rfl
  · rw [hfile, hdirectory, hs]; rfl

/-- Reading a normal path gives the file that stands there. -/
theorem read_of_files (hp : IsNormal p) :
    (⟨files, ∅⟩ : Tree).read p = (standing files p).read p := by
  rw [read, normalize_of_isNormal hp]
  show (match files[p]? with | some data => _ | none => _ : Except WorkspaceError Bytes) = _
  rcases standing_cases files p with ⟨data, hfile, hs⟩ | ⟨hfile, hdirectory, hs⟩ |
    ⟨hfile, hdirectory, hs⟩
  · rw [hfile, hs]; rfl
  · rw [hfile, hdirectory, hs]; rfl
  · rw [hfile, hdirectory, hs]; rfl

/-- Listing a directory gives what a guest is shown of it. -/
theorem list_of_files (hd : IsNormal d) (hs : standing files d = .directory) :
    (⟨files, ∅⟩ : Tree).list d = .ok ((⟨files, ∅⟩ : Tree).children d) := by
  obtain ⟨hfile, hdirectory⟩ :
      files[d]? = none ∧ (⟨files, ∅⟩ : Tree).isDirectory d = true := by
    rcases standing_cases files d with ⟨data, -, hfile⟩ | ⟨hfile, hdirectory, -⟩ | ⟨-, -, hnothing⟩
    · simp [hs] at hfile
    · exact ⟨hfile, hdirectory⟩
    · simp [hs] at hnothing
  rw [list, normalize_of_isNormal hd, children_eq_entries]
  show (if files.contains d then _ else if !(⟨files, ∅⟩ : Tree).isDirectory d then _ else _ :
    Except WorkspaceError (List DirEntry)) = _
  rw [Std.ExtTreeMap.contains_eq_isSome_getElem?, hfile, hdirectory]
  rfl

/-- A guest is shown the names under which something stands, with its kind. -/
theorem mem_children_of_files (h : WellFormedFiles files) {name : String} {kind : EntryKind} :
    ⟨name, kind⟩ ∈ (⟨files, ∅⟩ : Tree).children d
      ↔ IsName name ∧ (standing files (Path.join d name)).kind? = some kind := by
  have hwell := wellFormed_of_files h
  rw [children_eq_entries, ← kind?_of_files]
  constructor
  · intro hmem
    exact hwell.of_mem_entries hmem
  · rintro ⟨hname, hkind⟩
    exact hwell.mem_entries_iff.2 ⟨hname.no_slash, hname.ne_empty, hkind⟩

/-- A workspace of well-formed files and a guest that starts with them show the same, namely what
stands in the set: at every path its kind, its contents and its status, and in every directory the
same names with the same kinds in the same order. A snapshot of the workspace is the set, and so is
what the engine makes of it. -/
theorem views_agree (h : WellFormedFiles files) :
    (∀ p, IsNormal p →
      (⟨files, ∅⟩ : Tree).kind? p = (standing files p).kind?
        ∧ (⟨files, ∅⟩ : Tree).files[p]? = (standing files p).contents?
        ∧ (ofFiles files.toList).stat p = .ok (standing files p).stat?
        ∧ (ofFiles files.toList).read p = (standing files p).read p)
      ∧ (∀ d, standing files d = .directory →
        (ofFiles files.toList).list d = .ok ((⟨files, ∅⟩ : Tree).children d)
          ∧ ((⟨files, ∅⟩ : Tree).children d).Pairwise (fun entry entry' => entry.name < entry'.name)
          ∧ ∀ name kind, ⟨name, kind⟩ ∈ (⟨files, ∅⟩ : Tree).children d
            ↔ IsName name ∧ (standing files (Path.join d name)).kind? = some kind)
      ∧ ∃ taken, (Snapshot.take : WorkspaceM Tree FileSet) (ofFiles files.toList)
          = (.ok taken, ofFiles files.toList)
        ∧ GuestRequest.normalFiles taken = .ok files := by
  have hwell := wellFormed_of_files h
  rw [ofFiles_toList]
  refine ⟨fun p hp => ⟨kind?_of_files files p, contents?_of_files files p, stat_of_files hp,
    read_of_files hp⟩, fun d hdirectory => ?_, files, Snapshot.take_apply hwell,
    GuestRequest.normalFiles_eq_ok h⟩
  have hkind : (⟨files, ∅⟩ : Tree).kind? d = some .directory := by
    rw [kind?_of_files, hdirectory]
    rfl
  have hd : IsNormal d := hwell.normal_of_isDirectory (isDirectory_of_kind? hkind)
  refine ⟨list_of_files hd hdirectory, ?_, fun name kind => mem_children_of_files h⟩
  rw [children_eq_entries]
  exact pairwise_entries _ d

/-- Two files of one name in different directories, one of them two directories down. -/
def scattered : FileSet :=
  ((∅ : FileSet).insert "a/b/f" [1, 2]).insert "a/f" []

/-- A directory that holds a file and a directory is listed alike in both views. -/
theorem views_agree_scattered : WellFormedFiles scattered
    ∧ (ofFiles scattered.toList).list "a" = .ok [⟨"b", .directory⟩, ⟨"f", .file⟩]
    ∧ (⟨scattered, ∅⟩ : Tree).children "a" = [⟨"b", .directory⟩, ⟨"f", .file⟩] := by
  have hfiles : WellFormedFiles scattered := by decide +kernel
  have hchildren : (⟨scattered, ∅⟩ : Tree).children "a" = [⟨"b", .directory⟩, ⟨"f", .file⟩] := by
    decide +kernel
  have hlist := ((views_agree hfiles).2.1 "a" (by decide +kernel)).1
  exact ⟨hfiles, hchildren ▸ hlist, hchildren⟩

end Tree

end Sandshell
