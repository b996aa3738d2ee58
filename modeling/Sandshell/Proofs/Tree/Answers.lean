import Sandshell.Proofs.Path.Descent
import Sandshell.Proofs.Path.Inside
import Sandshell.Proofs.Tree.History
import Sandshell.Proofs.Workspace.Mirror

/-!
# Answers of a tree

All that a tree answers to a path is told by what stands at the path's normal form. So its answers
cohere: a listing shows what a status tells of the names in a directory, a file can be read where a
status tells one, and the look-up of the first path in order finds out whether any path lies below.
-/

namespace Sandshell

open Sandshell.Path (Below IsName IsNormal LeadsDown join)

namespace Tree

variable {t : Tree} {path path' p d name : String} {data : Bytes} {kind : EntryKind}

/-- A tree is well-formed if its keys are normal and no file is a directory. -/
theorem wellFormed_iff : t.WellFormed ↔
    (∀ p ∈ t.files.keys, IsNormal p ∧ t.isDirectory p = false)
      ∧ ∀ p ∈ t.directories.toList, IsNormal p := by
  simp only [Std.ExtTreeMap.mem_keys, Std.ExtTreeSet.mem_toList]
  constructor
  · intro h
    exact ⟨fun p hp => ⟨h.normal_file p hp, h.file_not_directory p hp⟩, h.normal_directory⟩
  · intro h
    exact ⟨fun p hp => (h.1 p hp).1, h.2, fun p hp => (h.1 p hp).2⟩

instance (t : Tree) : Decidable t.WellFormed :=
  decidable_of_iff _ wellFormed_iff.symm

/-! ## Normal forms -/

/-- Paths of one normal form get the same answers and make the same changes. -/
theorem alike_of_normalize? (h : Path.normalize? path = some p)
    (h' : Path.normalize? path' = some p) (t : Tree) (data : Bytes) :
    t.read path = t.read path' ∧ t.stat path = t.stat path' ∧ t.list path = t.list path'
      ∧ t.write path data = t.write path' data ∧ t.delete path = t.delete path'
      ∧ t.createDir path = t.createDir path' := by
  have hsame : WorkspaceError.normalize path = WorkspaceError.normalize path' := by
    rw [normalize_of_normalize? h, normalize_of_normalize? h']
  simp only [Tree.read, Tree.stat, Tree.list, Tree.write, Tree.delete, createDir, hsame, and_self]

/-- Asking shows what stands at the normal form. -/
theorem stat_of_normalize? (h : Path.normalize? path = some p) :
    t.stat path = .ok ((t.node? p).bind Host.Node.stat?) := by
  have hp := Path.isNormal_of_normalize? h
  rw [(alike_of_normalize? h hp t []).2.1, stat_eq hp]

/-- A path without normal form has neither contents nor a status. -/
theorem invalid_of_normalize? (h : Path.normalize? path = none) :
    t.read path = .error (.invalidPath path) ∧ t.stat path = .error (.invalidPath path) := by
  rw [Tree.read, Tree.stat, normalize_eq_error h]
  exact ⟨rfl, rfl⟩

/-- Reading gives a file that stands there. -/
theorem read_eq_ok_iff_node? : t.read path = .ok data
    ↔ ∃ p, Path.normalize? path = some p ∧ t.node? p = some (.file data) := by
  cases h : Path.normalize? path with
  | none =>
    rw [(invalid_of_normalize? h).1]
    simp
  | some p =>
    have hp := Path.isNormal_of_normalize? h
    rw [(alike_of_normalize? h hp t []).1, read_eq_ok_iff hp]
    simp

/-- A status tells the kind of what stands at the normal form. -/
theorem exists_stat_iff : (∃ size, t.stat path = .ok (some ⟨kind, size⟩))
    ↔ ∃ p, Path.normalize? path = some p ∧ t.kind? p = some kind := by
  cases h : Path.normalize? path with
  | none =>
    rw [(invalid_of_normalize? h).2]
    simp
  | some p =>
    rw [stat_of_normalize? h]
    simp only [Option.some.injEq, exists_eq_left', kind?_eq, Except.ok.injEq]
    cases hnode : t.node? p with
    | none => simp
    | some node =>
      cases node with
      | file data => cases kind <;> simp [Host.Node.stat?, Rooted.kind?]
      | directory => cases kind <;> simp [Host.Node.stat?, Rooted.kind?]
      | link target => exact absurd hnode node?_ne_link

theorem bind_stat?_eq_none_iff : (t.node? p).bind Host.Node.stat? = none ↔ t.node? p = none := by
  cases hnode : t.node? p with
  | none => simp
  | some node =>
    cases node with
    | file data => simp [Host.Node.stat?]
    | directory => simp [Host.Node.stat?]
    | link target => exact absurd hnode node?_ne_link

theorem bind_stat?_eq_directory_iff :
    (t.node? p).bind Host.Node.stat? = some ⟨.directory, 0⟩ ↔ t.node? p = some .directory := by
  cases t.node? p with
  | none => simp
  | some node => cases node <;> simp [Host.Node.stat?]

/-- Nothing is shown where nothing stands. -/
theorem stat_eq_none_iff :
    t.stat path = .ok none ↔ ∃ p, Path.normalize? path = some p ∧ t.node? p = none := by
  cases h : Path.normalize? path with
  | none => simp [(invalid_of_normalize? h).2]
  | some p =>
    rw [stat_of_normalize? h, Except.ok.injEq, bind_stat?_eq_none_iff]
    simp

/-- A directory is shown where one stands. -/
theorem stat_eq_directory_iff : t.stat path = .ok (some ⟨.directory, 0⟩)
    ↔ ∃ p, Path.normalize? path = some p ∧ t.node? p = some .directory := by
  cases h : Path.normalize? path with
  | none => simp [(invalid_of_normalize? h).2]
  | some p =>
    rw [stat_of_normalize? h, Except.ok.injEq, bind_stat?_eq_directory_iff]
    simp

/-- The answer to reading a path, told by what stands at its normal form. -/
theorem read_of_normalize? (h : Path.normalize? path = some p) : t.read path =
    match t.node? p with
    | some (.file data) => .ok data
    | some .directory => .error (.isADirectory p)
    | _ => .error (.notFound p) := by
  rw [Tree.read, normalize_of_normalize? h, node?]
  simp only [bind, Except.bind]
  cases t.files[p]? with
  | some data => rfl
  | none => cases t.isDirectory p <;> rfl

/-- Trees with the same at the normal form of a path answer alike. -/
theorem answers_eq_of_node? {t' : Tree}
    (h : ∀ p, Path.normalize? path = some p → t'.node? p = t.node? p) :
    t'.read path = t.read path ∧ t'.stat path = t.stat path := by
  cases hnormal : Path.normalize? path with
  | none =>
    rw [(invalid_of_normalize? hnormal).1, (invalid_of_normalize? hnormal).1,
      (invalid_of_normalize? hnormal).2, (invalid_of_normalize? hnormal).2]
    exact ⟨rfl, rfl⟩
  | some p =>
    have hnode := h p hnormal
    rw [read_of_normalize? hnormal, read_of_normalize? hnormal, stat_of_normalize? hnormal,
      stat_of_normalize? hnormal, hnode]
    exact ⟨rfl, rfl⟩

theorem kind?_eq_directory_iff : t.kind? p = some .directory ↔ t.node? p = some .directory := by
  rw [kind?_eq]
  cases t.node? p with
  | none => simp
  | some node => cases node <;> simp [Rooted.kind?]

/-- In a well-formed tree a directory stands where there is one. -/
theorem WellFormed.node?_eq_directory_iff (h : t.WellFormed) :
    t.node? p = some .directory ↔ t.isDirectory p := by
  rw [← kind?_eq_directory_iff]
  constructor
  · exact isDirectory_of_kind?
  · intro hdirectory
    apply kind?_of_isDirectory _ hdirectory
    intro hfile
    rw [h.file_not_directory p hfile] at hdirectory
    contradiction

theorem kind?_eq_file_iff : t.kind? p = some .file ↔ ∃ data, t.node? p = some (.file data) := by
  rw [kind?_eq]
  cases t.node? p with
  | none => simp
  | some node => cases node <;> simp [Rooted.kind?]

/-! ## Listings -/

/-- The entries stand in the order of their names, and are the names under which something stands,
with its kind. -/
structure IsListing (t : Tree) (d : String) (found : List DirEntry) : Prop where
  ordered : found.Pairwise fun entry entry' => entry.name < entry'.name
  mem_iff : ∀ name kind, ⟨name, kind⟩ ∈ found
    ↔ LeadsDown name ∧ ∃ size, t.stat (join d name) = .ok (some ⟨kind, size⟩)

/-- What leads down from a normal directory to a path with a normal form is a name. -/
theorem isName_of_leadsDown (hd : IsNormal d) (hname : LeadsDown name)
    (h : Path.normalize? (join d name) = some p) : IsName name ∧ p = join d name := by
  have hnul : '\x00' ∉ name.toList := by
    intro hmem
    have hjoin : '\x00' ∈ (join d name).toList := by
      by_cases hroot : d = ""
      · rwa [hroot, Path.join_empty]
      · rw [Path.join_of_ne hroot, String.toList_append]
        exact List.mem_append_right _ hmem
    rw [Path.normalize?, Path.hasNul, List.contains_iff_mem.2 hjoin] at h
    contradiction
  have hisName : IsName name :=
    ⟨hname.ne_empty, hname.ne_dot, hname.ne_dots, hname.no_slash, hnul⟩
  have hnormal : Path.normalize? (join d name) = some (join d name) := Path.isNormal_join hd hisName
  exact ⟨hisName, Option.some.inj (h.symm.trans hnormal)⟩

/-- The entries of a directory list it. -/
theorem WellFormed.isListing_entries (h : t.WellFormed) (hd : IsNormal d) :
    t.IsListing d (t.entries d) := by
  refine ⟨pairwise_entries t d, fun name kind => ?_⟩
  rw [exists_stat_iff]
  constructor
  · intro hentry
    obtain ⟨hname, hkind⟩ := h.of_mem_entries hentry
    exact ⟨hname.leadsDown, _, Path.isNormal_join hd hname, hkind⟩
  · rintro ⟨hdown, p, hnormal, hkind⟩
    obtain ⟨hname, rfl⟩ := isName_of_leadsDown hd hdown hnormal
    exact h.mem_entries_iff.2 ⟨hname.no_slash, hname.ne_empty, hkind⟩

/-- What stands in a well-formed tree stands in a directory. -/
theorem WellFormed.isDirectory_parent_of_kind? (h : t.WellFormed) (hkind : t.kind? p = some kind) :
    t.node? (Path.parent p) = some .directory := by
  have hparent : t.isDirectory (Path.parent p) := by
    cases kind with
    | file => exact isDirectory_parent (.inl (mem_of_kind? hkind))
    | directory =>
      -- a single segment stands in the root, and any other path lies below its parent
      rcases Path.no_slash_or_below_parent p with hslash | hbelow
      · rw [Path.parent_of_no_slash hslash]
        exact isDirectory_root t
      · exact isDirectory_of_below (isDirectory_of_kind? hkind) hbelow
  rw [← kind?_eq_directory_iff]
  apply kind?_of_isDirectory _ hparent
  intro hfile
  rw [h.file_not_directory _ hfile] at hparent
  contradiction

/-- The answers of a well-formed tree fit together. A directory can be listed, and nothing else can;
its listing shows what a status tells of the names in it, and every path but the root is shown in its
parent's. A file can be read, and nothing else can, and its status tells how long it is. The first
stored path from a path with a slash on tells whether any lies below the path. -/
theorem answers_cohere (h : t.WellFormed) :
    (∀ d, IsNormal d →
      ((∃ found, t.list d = .ok found) ↔ ∃ size, t.stat d = .ok (some ⟨.directory, size⟩))
        ∧ ∀ found, t.list d = .ok found → t.IsListing d found)
      ∧ (∀ p stat, IsNormal p → p ≠ "" → t.stat p = .ok (some stat) →
        ∃ found, t.list (Path.split p).1 = .ok found ∧ ⟨(Path.split p).2, stat.kind⟩ ∈ found)
      ∧ (∀ path, ((∃ data, t.read path = .ok data) ↔ ∃ size, t.stat path = .ok (some ⟨.file, size⟩))
        ∧ ∀ data, t.read path = .ok data → t.stat path = .ok (some ⟨.file, data.length⟩))
      ∧ ∀ path, (leadsBelow path t.files.keys = true ↔ ∃ p ∈ t.files, Below path p)
        ∧ (leadsBelow path t.directories.toList = true ↔ ∃ p ∈ t.directories, Below path p) := by
  refine ⟨fun d hd => ⟨?_, fun found hlist => ?_⟩, fun p stat hp hne hstat => ?_,
    fun path => ⟨?_, fun data hread => ?_⟩, fun path => ⟨?_, ?_⟩⟩
  · have hnormal : Path.normalize? d = some d := hd
    simp only [list_eq_ok_iff hd, exists_and_left, exists_eq', and_true, exists_stat_iff, hnormal,
      Option.some.injEq, exists_eq_left', kind?_eq_directory_iff]
  · obtain ⟨-, rfl⟩ := (list_eq_ok_iff hd).1 hlist
    exact h.isListing_entries hd
  -- the directory above is listed, because something stands in it
  · obtain ⟨q, hq, hkind⟩ := exists_stat_iff.1 ⟨stat.size, hstat⟩
    obtain rfl : p = q := Option.some.inj (hp.symm.trans hq)
    obtain ⟨d, name, hname, rfl⟩ := Path.exists_eq_join hp hne
    have hdirectory := h.isDirectory_parent_of_kind? hkind
    rw [Path.parent_join hname.no_slash] at hdirectory
    have hd : IsNormal d := h.normal_of_isDirectory
      (isDirectory_of_kind? (kind?_eq_directory_iff.2 hdirectory))
    rw [Path.split_join hname.no_slash]
    refine ⟨t.entries d, (list_eq_ok_iff hd).2 ⟨hdirectory, rfl⟩, ?_⟩
    exact h.mem_entries_iff.2 ⟨hname.no_slash, hname.ne_empty, hkind⟩
  · rw [exists_stat_iff]
    simp only [read_eq_ok_iff_node?, kind?_eq_file_iff]
    rw [exists_comm]
    simp only [exists_and_left]
  · obtain ⟨p, hnormal, hnode⟩ := read_eq_ok_iff_node?.1 hread
    rw [stat_of_normalize? hnormal, hnode]
    rfl
  · rw [leadsBelow_iff Std.ExtTreeMap.ordered_keys]
    simp only [Std.ExtTreeMap.mem_keys]
  · rw [leadsBelow_iff Std.ExtTreeSet.ordered_toList]
    simp only [Std.ExtTreeSet.mem_toList]

/-- A file, and a directory with a file and an empty directory in it. The path of the first file
begins with that of the directory, and stands before those below it. -/
def sharedPrefix : Tree :=
  ⟨((∅ : FileSet).insert "a-b" [1]).insert "a/b" [2, 3], (∅ : Std.ExtTreeSet String).insert "a/c"⟩

theorem answers_cohere_sharedPrefix : sharedPrefix.WellFormed ∧ IsNormal "a"
    ∧ sharedPrefix.IsListing "a" [⟨"b", .file⟩, ⟨"c", .directory⟩]
    ∧ sharedPrefix.stat "a/b" = .ok (some ⟨.file, 2⟩)
    ∧ ∃ p ∈ sharedPrefix.files, Below "a" p := by
  have hwell : sharedPrefix.WellFormed := by decide +kernel
  have ha : IsNormal "a" := by decide
  have hlist : sharedPrefix.list "a" = .ok [⟨"b", .file⟩, ⟨"c", .directory⟩] := by decide +kernel
  have hread : sharedPrefix.read "a/b" = .ok [2, 3] := by decide +kernel
  obtain ⟨hlistings, -, hfiles, hbelow⟩ := answers_cohere hwell
  exact ⟨hwell, ha, (hlistings "a" ha).2 _ hlist, (hfiles "a/b").2 _ hread,
    (hbelow "a").1.1 (by decide +kernel)⟩

end Tree

end Sandshell
