import Sandshell.Proofs.Tree.Answers

/-!
# Changes of a tree

A tree is a map from normal paths to what stands there, and each call that succeeds is an update of
that map. Writing a file and making a directory set one path, and the paths above it, which become
directories. Deleting clears one path, and sets those above it as well: so it changes nothing else
exactly if something stands at the parent.
-/

namespace Sandshell

open Sandshell.Path (Below IsNormal)

namespace Tree

variable {t t' : Tree} {path p q : String} {data : Bytes}

/-! ## What stands where after a change -/

theorem isDirectory_eq_of_iff (h : t'.isDirectory q ↔ t.isDirectory q) :
    t'.isDirectory q = t.isDirectory q :=
  Bool.eq_iff_iff.2 h

/-- Writing a file below no other one sets its path, and makes directories of what is above. -/
theorem node?_insertFile (hfree : ∀ f ∈ t.files, ¬ Below f p) (data : Bytes) (q : String) :
    ({ t with files := t.files.insert p data } : Tree).node? q =
      if q = p then some (.file data) else if Below q p then some .directory else t.node? q := by
  by_cases hself : q = p
  · rw [if_pos hself, node?_eq_file_iff, hself]
    exact Std.ExtTreeMap.getElem?_insert_self
  have hfile : (t.files.insert p data)[q]? = t.files[q]? := by
    rw [Std.ExtTreeMap.getElem?_insert, if_neg]
    intro hcompare
    exact hself (Std.compare_eq_iff_eq.1 hcompare).symm
  rw [if_neg hself, node?, hfile]
  by_cases habove : Below q p
  · have hnone : t.files[q]? = none :=
      Std.ExtTreeMap.getElem?_eq_none fun hmem => hfree q hmem habove
    rw [if_pos habove, hnone]
    exact if_pos (isDirectory_insertFile.2 (.inr habove))
  · rw [if_neg habove, node?, isDirectory_eq_of_iff]
    rw [isDirectory_insertFile, or_iff_left habove]

/-- Making a directory sets its path and what is above. -/
theorem node?_insertDirectory (hfile : p ∉ t.files) (hfree : ∀ f ∈ t.files, ¬ Below f p)
    (q : String) : ({ t with directories := t.directories.insert p } : Tree).node? q =
      if q = p ∨ Below q p then some .directory else t.node? q := by
  by_cases hset : q = p ∨ Below q p
  · have hnone : t.files[q]? = none := by
      apply Std.ExtTreeMap.getElem?_eq_none
      intro hmem
      rcases hset with rfl | habove
      · exact hfile hmem
      · exact hfree q hmem habove
    rw [if_pos hset, node?, hnone]
    exact if_pos (isDirectory_insertDirectory.2 (.inr hset))
  · rw [if_neg hset, node?, node?, isDirectory_eq_of_iff]
    rw [isDirectory_insertDirectory, or_iff_left hset]

/-- A path that is deleted has a directory above it afterwards, also where no file stood. -/
theorem isDirectory_without_iff : (t.without p).isDirectory q
    ↔ t.isDirectory q ∨ q = Path.parent p ∨ Below q (Path.parent p) := by
  by_cases hmem : p ∈ t.files
  · rw [isDirectory_without hmem, iff_self_or]
    have hparent := isDirectory_parent (.inl hmem)
    rintro (rfl | habove)
    · exact hparent
    · exact isDirectory_of_below hparent habove
  rw [without_of_not_mem hmem]
  split
  · next hparent =>
    rw [iff_self_or]
    rintro (rfl | habove)
    · exact hparent
    · exact isDirectory_of_below hparent habove
  · exact isDirectory_insertDirectory

/-- Only the root is a directory in every tree. -/
theorem ne_empty_of_isDirectory_eq_false (h : t.isDirectory p = false) : p ≠ "" := by
  rintro rfl
  rw [isDirectory_root] at h
  exact Bool.noConfusion h

/-- No path is its own parent or above it, but for the root. -/
theorem not_above_parent (hp : p ≠ "") : ¬ (p = Path.parent p ∨ Below p (Path.parent p)) := by
  rcases Path.no_slash_or_below_parent p with hslash | hbelow
  · rw [Path.parent_of_no_slash hslash]
    rintro (heq | habove)
    · exact hp heq
    · exact habove.ne_empty rfl
  · rintro (heq | habove)
    · rw [← heq] at hbelow
      exact hbelow.irrefl
    · exact (habove.trans hbelow).irrefl

/-- Deleting clears a path, and fills what was empty of its parent and the paths above. -/
theorem WellFormed.node?_without (h : t.WellFormed) (hp : p ∈ t.files ∨ t.isDirectory p = false)
    (q : String) : (t.without p).node? q =
      if q = p then none
      else (t.node? q).or
        (if q = Path.parent p ∨ Below q (Path.parent p) then some .directory else none) := by
  have hdirectory : t.isDirectory p = false := hp.elim (h.file_not_directory p) id
  by_cases hself : q = p
  · have hgone : (t.without p).isDirectory p = false := by
      rw [Bool.eq_false_iff, ne_eq, isDirectory_without_iff, hdirectory]
      simpa using not_above_parent (ne_empty_of_isDirectory_eq_false hdirectory)
    rw [if_pos hself, node?, without_files, hself, Std.ExtTreeMap.getElem?_erase_self, hgone]
    rfl
  have hfile : (t.files.erase p)[q]? = t.files[q]? := by
    rw [Std.ExtTreeMap.getElem?_erase, if_neg]
    intro hcompare
    exact hself (Std.compare_eq_iff_eq.1 hcompare).symm
  rw [if_neg hself, node?, without_files, hfile, node?]
  cases t.files[q]? with
  | some data => rfl
  | none =>
    have hiff := isDirectory_without_iff (t := t) (p := p) (q := q)
    cases hold : t.isDirectory q with
    | true => simp [hiff, hold]
    | false => simp [hiff, hold]

/-! ## Writing a file, making a directory -/

theorem mem_files_of_node? (h : t.node? p = some (.file data)) : p ∈ t.files := by
  rw [Std.ExtTreeMap.mem_iff_isSome_getElem?, node?_eq_file_iff.1 h]
  rfl

/-- Where the status of a path is another one, something else stands at its normal form. -/
theorem exists_node?_ne (h : t'.stat path ≠ t.stat path) :
    ∃ q, Path.normalize? path = some q ∧ t'.node? q ≠ t.node? q := by
  by_contra hnone
  push Not at hnone
  exact h (answers_eq_of_node? hnone).2

/-- Nothing blocks a path exactly if no file is above it. -/
theorem blockingFile?_eq_none_iff : t.blockingFile? p = none ↔ ∀ f ∈ t.files, ¬ Below f p :=
  ⟨fun h _ hf => not_below_of_blockingFile? h hf, blockingFile?_eq_none⟩

/-- No file can be written at the path: it has no normal form, or is a directory, or lies below a
file. -/
def RefusesFile (t : Tree) (path : String) : Prop :=
  Path.normalize? path = none ∨ ∃ p, Path.normalize? path = some p
    ∧ (p = "" ∨ t.stat p = .ok (some ⟨.directory, 0⟩) ∨ ∃ f ∈ t.files, Below f p)

/-- No directory can be made at the path: it has no normal form, or is a file, or lies below one. -/
def RefusesDirectory (t : Tree) (path : String) : Prop :=
  Path.normalize? path = none ∨ ∃ p, Path.normalize? path = some p
    ∧ (p ∈ t.files ∨ ∃ f ∈ t.files, Below f p)

/-- What `t'` answers after a file has been written to `t`: the file stands at its path, in
directories; files at other paths and directories stand where they stood; and nothing else stands
anywhere. -/
structure Written (t t' : Tree) (p : String) (data : Bytes) : Prop where
  read_self : t'.read p = .ok data
  stat_self : t'.stat p = .ok (some ⟨.file, data.length⟩)
  stat_above : ∀ q, q = "" ∨ Below q p → t'.stat q = .ok (some ⟨.directory, 0⟩)
  read_other : ∀ path old, Path.normalize? path ≠ some p → t.read path = .ok old →
    t'.read path = .ok old
  stat_directory : ∀ path, t.stat path = .ok (some ⟨.directory, 0⟩) →
    t'.stat path = .ok (some ⟨.directory, 0⟩)
  stat_none : ∀ path, t.stat path = .ok none → t'.stat path ≠ .ok none →
    ∃ q, Path.normalize? path = some q ∧ (q = p ∨ Below q p)

/-- What `t'` answers after a directory has been made in `t`: it stands at its path, in directories;
all files are as they were; and where the status is another one, nothing stood and a directory
stands now, which is the new one or above it. -/
structure Created (t t' : Tree) (p : String) : Prop where
  stat_self : t'.stat p = .ok (some ⟨.directory, 0⟩)
  stat_above : ∀ q, q = "" ∨ Below q p → t'.stat q = .ok (some ⟨.directory, 0⟩)
  read_iff : ∀ path old, t'.read path = .ok old ↔ t.read path = .ok old
  stat_other : ∀ path, t'.stat path ≠ t.stat path →
    t.stat path = .ok none ∧ t'.stat path = .ok (some ⟨.directory, 0⟩)
      ∧ ∃ q, Path.normalize? path = some q ∧ (q = p ∨ Below q p)

theorem WellFormed.node?_root (h : t.WellFormed) : t.node? "" = some .directory :=
  h.node?_eq_directory_iff.2 (isDirectory_root t)

/-- A file that is stored answers for itself, and what stood elsewhere answers as before. -/
theorem WellFormed.written (h : t.WellFormed) (hp : IsNormal p)
    (hdirectory : t.isDirectory p = false) (hfree : ∀ f ∈ t.files, ¬ Below f p) (data : Bytes) :
    t.Written { t with files := t.files.insert p data } p data := by
  have hnode := node?_insertFile hfree data
  generalize ({ t with files := t.files.insert p data } : Tree) = t' at hnode ⊢
  have hself : t'.node? p = some (.file data) := by rw [hnode, if_pos rfl]
  have hstays : ∀ q, t.node? q = some .directory → t'.node? q = some .directory := by
    intro q hq
    have hne : q ≠ p := by
      rintro rfl
      rw [h.node?_eq_directory_iff, hdirectory] at hq
      contradiction
    rw [hnode, if_neg hne, hq, ite_self]
  refine ⟨(read_eq_ok_iff hp).2 hself, ?_, fun q hq => ?_, fun path old hne hread => ?_,
    fun path hstat => ?_, fun path hnone hsome => ?_⟩
  · rw [stat_eq hp, hself]
    rfl
  · rw [stat_eq_directory_iff]
    rcases hq with rfl | habove
    · exact ⟨"", Path.isNormal_empty, hstays "" h.node?_root⟩
    · have hne : q ≠ p := by
        rintro rfl
        exact habove.irrefl
      refine ⟨q, habove.isNormal hp, ?_⟩
      rw [hnode, if_neg hne, if_pos habove]
  · rw [read_eq_ok_iff_node?] at hread ⊢
    obtain ⟨q, hq, hfile⟩ := hread
    have hneq : q ≠ p := by
      rintro rfl
      exact hne hq
    -- a file does not stand above the new one
    have hnotAbove : ¬ Below q p := hfree q (mem_files_of_node? hfile)
    exact ⟨q, hq, by rw [hnode, if_neg hneq, if_neg hnotAbove, hfile]⟩
  · rw [stat_eq_directory_iff] at hstat ⊢
    obtain ⟨q, hq, hold⟩ := hstat
    exact ⟨q, hq, hstays q hold⟩
  · obtain ⟨q, hq, hold⟩ := stat_eq_none_iff.1 hnone
    refine ⟨q, hq, ?_⟩
    by_contra hneither
    rw [not_or] at hneither
    apply hsome
    rw [stat_eq_none_iff]
    exact ⟨q, hq, by rw [hnode, if_neg hneither.1, if_neg hneither.2, hold]⟩

/-- A directory that is recorded answers for itself, and all files answer as before. -/
theorem WellFormed.created (h : t.WellFormed) (hp : IsNormal p) (hfile : p ∉ t.files)
    (hfree : ∀ f ∈ t.files, ¬ Below f p) :
    t.Created { t with directories := t.directories.insert p } p := by
  have hnode := node?_insertDirectory hfile hfree
  generalize ({ t with directories := t.directories.insert p } : Tree) = t' at hnode ⊢
  have hset : ∀ q, q = p ∨ Below q p → t'.stat q = .ok (some ⟨.directory, 0⟩) := by
    intro q hq
    have hnormal : IsNormal q := by
      rcases hq with rfl | habove
      · exact hp
      · exact habove.isNormal hp
    rw [stat_eq_directory_iff]
    exact ⟨q, hnormal, by rw [hnode, if_pos hq]⟩
  -- no file stands where a directory is set
  have hnotFile : ∀ q old, q = p ∨ Below q p → t.node? q ≠ some (.file old) := by
    intro q old hq hold
    have hmem := mem_files_of_node? hold
    rcases hq with rfl | habove
    · exact hfile hmem
    · exact hfree q hmem habove
  refine ⟨hset p (.inl rfl), fun q hq => ?_, fun path old => ?_, fun path hne => ?_⟩
  · rcases hq with rfl | habove
    · rw [stat_eq_directory_iff]
      refine ⟨"", Path.isNormal_empty, ?_⟩
      rw [hnode, h.node?_root, ite_self]
    · exact hset q (.inr habove)
  · rw [read_eq_ok_iff_node?, read_eq_ok_iff_node?]
    refine exists_congr fun q => and_congr_right fun hq => ?_
    rw [hnode]
    split
    · next hq => exact iff_of_false (by simp) (hnotFile q old hq)
    · exact Iff.rfl
  · obtain ⟨q, hq, hdiffers⟩ := exists_node?_ne hne
    have hwas := hdiffers
    rw [hnode] at hwas
    split at hwas
    · next hset' =>
      refine ⟨stat_eq_none_iff.2 ⟨q, hq, ?_⟩, ?_, q, hq, hset'⟩
      · cases hold : t.node? q with
        | none => rfl
        | some node =>
          cases node with
          | file old => exact absurd hold (hnotFile q old hset')
          | directory => exact absurd hold.symm hwas
          | link target => exact absurd hold node?_ne_link
      · rw [stat_eq_directory_iff]
        exact ⟨q, hq, by rw [hnode, if_pos hset']⟩
    · exact absurd rfl hwas

/-- A write is refused by a directory at its path or a file above it. -/
theorem write_eq (hnormal : Path.normalize? path = some p) (data : Bytes) : t.write path data =
    if t.isDirectory p then .error (.isADirectory p)
    else
      match t.blockingFile? p with
      | some file => .error (.notADirectory file)
      | none => .ok { t with files := t.files.insert p data } := by
  rw [Tree.write, normalize_of_normalize? hnormal]
  show (if t.isDirectory p then _ else _) = _
  split
  · rfl
  · cases t.blockingFile? p <;> rfl

/-- A directory is refused by a file at its path or above it. -/
theorem createDir_eq (hnormal : Path.normalize? path = some p) : t.createDir path =
    if t.files.contains p then .error (.notADirectory p)
    else
      match t.blockingFile? p with
      | some file => .error (.notADirectory file)
      | none => .ok { t with directories := t.directories.insert p } := by
  rw [Tree.createDir, normalize_of_normalize? hnormal]
  show (if t.files.contains p then _ else _) = _
  split
  · rfl
  · cases t.blockingFile? p <;> rfl

/-- In a well-formed tree these are all that refuses a file. -/
theorem WellFormed.refusesFile_iff (h : t.WellFormed) (hnormal : Path.normalize? path = some p) :
    t.RefusesFile path ↔ t.isDirectory p ∨ ∃ f ∈ t.files, Below f p := by
  have hstat : t.stat p = .ok (some ⟨.directory, 0⟩) ↔ t.isDirectory p := by
    have hp : Path.normalize? p = some p := Path.isNormal_of_normalize? hnormal
    rw [stat_eq_directory_iff, hp, ← h.node?_eq_directory_iff]
    simp
  have hroot : p = "" → t.isDirectory p := fun heq => heq ▸ isDirectory_root t
  rw [RefusesFile, hnormal]
  simp only [reduceCtorEq, false_or, Option.some.injEq, exists_eq_left', hstat]
  tauto

/-- And these are all that refuses a directory. -/
theorem refusesDirectory_iff (hnormal : Path.normalize? path = some p) :
    t.RefusesDirectory path ↔ p ∈ t.files ∨ ∃ f ∈ t.files, Below f p := by
  simp [RefusesDirectory, hnormal]

theorem change_apply_ok {update : Tree → Except WorkspaceError Tree} (h : update t = .ok t') :
    change update t = (.ok (), t') := by
  rw [change, h]

/-- A change that is refused leaves the tree as it is. -/
theorem change_apply_error {update : Tree → Except WorkspaceError Tree} {e : WorkspaceError}
    (h : update t = .error e) : change update t = (.error e, t) := by
  rw [change, h]

/-- A file that blocks a path stands above it. -/
theorem exists_below_of_blockingFile? {file : String} (h : t.blockingFile? p = some file) :
    ∃ f ∈ t.files, Below f p := by
  by_contra hnone
  push Not at hnone
  rw [blockingFile?_eq_none_iff.2 hnone] at h
  contradiction

/-- Writing fails where something refuses the file, and is an update of the tree elsewhere. -/
theorem WellFormed.write_apply (h : t.WellFormed) (path : String) (data : Bytes) :
    (t.RefusesFile path → ∃ e, Workspace.write path data t = (.error e, t))
      ∧ (¬ t.RefusesFile path → ∃ p t', Path.normalize? path = some p
        ∧ Workspace.write path data t = (.ok (), t') ∧ t.Written t' p data) := by
  -- a write is refused for its path, for a directory there or for a file above
  cases hnormal : Path.normalize? path with
  | none =>
    refine ⟨fun _ => ⟨.invalidPath path, ?_⟩, fun hfree => absurd (.inl hnormal) hfree⟩
    apply change_apply_error
    rw [Tree.write, normalize_eq_error hnormal]
    rfl
  | some p =>
    have hwrite := write_eq (t := t) hnormal data
    rw [h.refusesFile_iff hnormal]
    cases hdirectory : t.isDirectory p with
    | true =>
      rw [hdirectory, if_pos rfl] at hwrite
      exact ⟨fun _ => ⟨_, change_apply_error hwrite⟩, fun hfree => absurd (.inl rfl) hfree⟩
    | false =>
      rw [hdirectory, if_neg Bool.false_ne_true] at hwrite
      cases hblocking : t.blockingFile? p with
      | some file =>
        rw [hblocking] at hwrite
        have habove := exists_below_of_blockingFile? hblocking
        exact ⟨fun _ => ⟨_, change_apply_error hwrite⟩, fun hfree => absurd (.inr habove) hfree⟩
      | none =>
        rw [hblocking] at hwrite
        have hfree := blockingFile?_eq_none_iff.1 hblocking
        refine ⟨fun hrefused => ?_, fun _ => ⟨p, _, rfl, change_apply_ok hwrite, ?_⟩⟩
        · rcases hrefused with hfalse | ⟨f, hf, habove⟩
          · exact absurd hfalse Bool.false_ne_true
          · exact absurd habove (hfree f hf)
        · exact h.written (Path.isNormal_of_normalize? hnormal) hdirectory hfree data

/-- Making a directory fails where something refuses it, and is an update of the tree elsewhere. -/
theorem WellFormed.createDir_apply (h : t.WellFormed) (path : String) :
    (t.RefusesDirectory path → ∃ e, Tree.change (·.createDir path) t = (.error e, t))
      ∧ (¬ t.RefusesDirectory path → ∃ p t', Path.normalize? path = some p
        ∧ Tree.change (·.createDir path) t = (.ok (), t') ∧ t.Created t' p) := by
  -- a directory is refused for its path, for a file there or for a file above
  cases hnormal : Path.normalize? path with
  | none =>
    refine ⟨fun _ => ⟨.invalidPath path, ?_⟩, fun hfree => absurd (.inl hnormal) hfree⟩
    apply change_apply_error
    rw [Tree.createDir, normalize_eq_error hnormal]
    rfl
  | some p =>
    have hcreate := createDir_eq (t := t) hnormal
    rw [refusesDirectory_iff hnormal]
    by_cases hfile : p ∈ t.files
    · rw [if_pos (Std.ExtTreeMap.contains_iff_mem.2 hfile)] at hcreate
      exact ⟨fun _ => ⟨_, change_apply_error hcreate⟩, fun hfree => absurd (.inl hfile) hfree⟩
    rw [if_neg (by rwa [Std.ExtTreeMap.contains_iff_mem])] at hcreate
    cases hblocking : t.blockingFile? p with
    | some file =>
      rw [hblocking] at hcreate
      have habove := exists_below_of_blockingFile? hblocking
      exact ⟨fun _ => ⟨_, change_apply_error hcreate⟩, fun hfree => absurd (.inr habove) hfree⟩
    | none =>
      rw [hblocking] at hcreate
      have hfree := blockingFile?_eq_none_iff.1 hblocking
      refine ⟨fun hrefused => ?_, fun _ => ⟨p, _, rfl, change_apply_ok hcreate, ?_⟩⟩
      · rcases hrefused with hmem | ⟨f, hf, habove⟩
        · contradiction
        · exact absurd habove (hfree f hf)
      · exact h.created (Path.isNormal_of_normalize? hnormal) hfile hfree

/-- Writing a file and making a directory are updates of the tree: either something refuses the
path, and the call fails and changes nothing, or the tree shows the file or directory and is the
same elsewhere. All this goes by the normal form of the path. -/
theorem changes_are_updates (h : t.WellFormed) (path : String) (data : Bytes) :
    ((t.RefusesFile path → ∃ e, Workspace.write path data t = (.error e, t))
        ∧ (¬ t.RefusesFile path → ∃ p t', Path.normalize? path = some p
          ∧ Workspace.write path data t = (.ok (), t') ∧ t.Written t' p data))
      ∧ ((t.RefusesDirectory path → ∃ e, change (·.createDir path) t = (.error e, t))
        ∧ (¬ t.RefusesDirectory path → ∃ p t', Path.normalize? path = some p
          ∧ change (·.createDir path) t = (.ok (), t') ∧ t.Created t' p))
      ∧ ∀ path' p, Path.normalize? path = some p → Path.normalize? path' = some p →
        t.read path = t.read path' ∧ t.stat path = t.stat path' ∧ t.list path = t.list path'
          ∧ t.write path data = t.write path' data ∧ t.delete path = t.delete path'
          ∧ t.createDir path = t.createDir path' :=
  ⟨h.write_apply path data, h.createDir_apply path,
    fun _ _ hnormal hnormal' => alike_of_normalize? hnormal hnormal' t data⟩

/-- A file is written two directories below the root, where there was only one. -/
theorem changes_are_updates_sharedPrefix : sharedPrefix.WellFormed
    ∧ ¬ sharedPrefix.RefusesFile "a/./d/f"
    ∧ (∃ t', Workspace.write "a/./d/f" [4] sharedPrefix = (.ok (), t')
      ∧ sharedPrefix.Written t' "a/d/f" [4])
    ∧ sharedPrefix.write "a/./d/f" [4] = sharedPrefix.write "a//d/f/" [4] := by
  have hwell : sharedPrefix.WellFormed := by decide +kernel
  have hnormal : Path.normalize? "a/./d/f" = some "a/d/f" := by decide
  have hnormal' : Path.normalize? "a//d/f/" = some "a/d/f" := by decide
  have hfree : ¬ sharedPrefix.RefusesFile "a/./d/f" := by
    rw [hwell.refusesFile_iff hnormal]
    rintro (hdirectory | ⟨f, hf, habove⟩)
    · exact absurd hdirectory (by decide +kernel)
    · exact blockingFile?_eq_none_iff.1 (by decide +kernel) f hf habove
  obtain ⟨hwrite, -, halike⟩ := changes_are_updates hwell "a/./d/f" [4]
  obtain ⟨p, t', hp, hcall, hwritten⟩ := hwrite.2 hfree
  obtain rfl : "a/d/f" = p := Option.some.inj (hnormal.symm.trans hp)
  exact ⟨hwell, hfree, ⟨t', hcall, hwritten⟩, (halike _ _ hnormal hnormal').2.2.2.1⟩

/-! ## Deleting -/

/-- Nothing can be deleted at the path: it has no normal form, or is a directory. -/
def RefusesDelete (t : Tree) (path : String) : Prop :=
  Path.normalize? path = none ∨ t.stat path = .ok (some ⟨.directory, 0⟩)

instance (t : Tree) (path : String) : Decidable (t.RefusesDelete path) :=
  inferInstanceAs (Decidable (_ ∨ _))

/-- What `t'` answers after a path of `t` has been deleted. Elsewhere it answers as `t` does exactly
if something stands at the path's parent. If nothing does, the parent and what is missing above it
become directories, and any other path answers as before. -/
structure Deleted (t t' : Tree) (p : String) : Prop where
  stat_self : t'.stat p = .ok none
  others_iff : (∀ path, Path.normalize? path ≠ some p →
      t'.read path = t.read path ∧ t'.stat path = t.stat path)
    ↔ t.stat (Path.parent p) ≠ .ok none
  above : ∀ q, q = Path.parent p ∨ Below q (Path.parent p) → t.stat q = .ok none →
    t'.stat q = .ok (some ⟨.directory, 0⟩)
  other : ∀ path, Path.normalize? path ≠ some p →
    t'.read path = t.read path ∧ t'.stat path = t.stat path
      ∨ t.stat path = .ok none ∧ t'.stat path = .ok (some ⟨.directory, 0⟩)
        ∧ ∃ q, Path.normalize? path = some q ∧ (q = Path.parent p ∨ Below q (Path.parent p))

/-- Above what stands anywhere are directories. -/
theorem WellFormed.node?_of_below (h : t.WellFormed) (hstands : t.node? p ≠ none)
    (hbelow : Below q p) : t.node? q = some .directory := by
  rw [h.node?_eq_directory_iff]
  cases hnode : t.node? p with
  | none => exact absurd hnode hstands
  | some node =>
    cases node with
    | file data => exact isDirectory_of_below_key (.inl (mem_files_of_node? hnode)) hbelow
    | directory => exact isDirectory_of_below (h.node?_eq_directory_iff.1 hnode) hbelow
    | link target => exact absurd hnode node?_ne_link

/-- A tree without a path has nothing at the path, and new directories above it at most. -/
theorem WellFormed.deleted (h : t.WellFormed) (hnormal : IsNormal p)
    (hp : p ∈ t.files ∨ t.isDirectory p = false) : t.Deleted (t.without p) p := by
  have hnode := h.node?_without hp
  generalize t.without p = t' at hnode ⊢
  have hroot : p ≠ "" := ne_empty_of_isDirectory_eq_false (hp.elim (h.file_not_directory p) id)
  have hparent : Path.normalize? (Path.parent p) = some (Path.parent p) := hnormal.parent
  -- what differs elsewhere was empty, and is the parent or above it
  have hdiffers : ∀ q, q ≠ p → t'.node? q ≠ t.node? q →
      t.node? q = none ∧ t'.node? q = some .directory
        ∧ (q = Path.parent p ∨ Below q (Path.parent p)) := by
    intro q hne hdiffers
    rw [hnode, if_neg hne] at hdiffers ⊢
    cases hold : t.node? q with
    | some node =>
      rw [hold] at hdiffers
      exact absurd rfl hdiffers
    | none =>
      rw [hold, Option.none_or] at hdiffers
      by_cases habove : q = Path.parent p ∨ Below q (Path.parent p)
      · rw [if_pos habove]
        exact ⟨rfl, rfl, habove⟩
      · rw [if_neg habove] at hdiffers
        exact absurd rfl hdiffers
  have hset : ∀ q, q = Path.parent p ∨ Below q (Path.parent p) → t.stat q = .ok none →
      t'.stat q = .ok (some ⟨.directory, 0⟩) := by
    intro q habove hnone
    obtain ⟨q', hq, hempty⟩ := stat_eq_none_iff.1 hnone
    have hself : IsNormal q := by
      rcases habove with rfl | hbelow
      · exact hnormal.parent
      · exact hbelow.isNormal hnormal.parent
    obtain rfl : q = q' := Option.some.inj (hself.symm.trans hq)
    have hne : q ≠ p := by
      rintro rfl
      exact not_above_parent hroot habove
    refine stat_eq_directory_iff.2 ⟨q, hself, ?_⟩
    rw [hnode, if_neg hne, hempty, Option.none_or, if_pos habove]
  refine ⟨stat_eq_none_iff.2 ⟨p, hnormal, by rw [hnode, if_pos rfl]⟩, ⟨?_, ?_⟩, hset, ?_⟩
  · intro hspares hnone
    have hne : Path.parent p ≠ p := fun heq => not_above_parent hroot (.inl heq.symm)
    have hsame := (hspares (Path.parent p) (by rwa [hparent, ne_eq, Option.some.injEq])).2
    rw [hset _ (.inl rfl) hnone, hnone] at hsame
    simp at hsame
  · intro hstands path hne
    apply answers_eq_of_node?
    intro q hq
    by_contra hdiffer
    obtain ⟨hempty, -, habove⟩ := hdiffers q (fun heq => hne (heq ▸ hq)) hdiffer
    have hparentStands : t.node? (Path.parent p) ≠ none :=
      fun hnone => hstands (stat_eq_none_iff.2 ⟨_, hparent, hnone⟩)
    rcases habove with rfl | habove
    · exact hparentStands hempty
    · rw [h.node?_of_below hparentStands habove] at hempty
      exact Option.some_ne_none _ hempty
  · intro path hne
    by_cases hsame : ∀ q, Path.normalize? path = some q → t'.node? q = t.node? q
    · exact .inl (answers_eq_of_node? hsame)
    · push Not at hsame
      obtain ⟨q, hq, hdiffer⟩ := hsame
      obtain ⟨hempty, hset, habove⟩ := hdiffers q (fun heq => hne (heq ▸ hq)) hdiffer
      exact .inr ⟨stat_eq_none_iff.2 ⟨q, hq, hempty⟩, stat_eq_directory_iff.2 ⟨q, hq, hset⟩,
        q, hq, habove⟩

/-- Deleting fails for a directory, and changes nothing then. Everywhere else it clears the path,
and changes nothing else exactly if something stands at the path's parent: otherwise the parent, and
what is above it, become directories. -/
theorem delete_spares_others_iff (h : t.WellFormed) (path : String) :
    (t.RefusesDelete path → ∃ e, Workspace.delete path t = (.error e, t))
      ∧ (¬ t.RefusesDelete path → ∃ p t', Path.normalize? path = some p
        ∧ Workspace.delete path t = (.ok (), t') ∧ t.Deleted t' p) := by
  cases hnormal : Path.normalize? path with
  | none =>
    refine ⟨fun _ => ⟨.invalidPath path, ?_⟩, fun hfree => absurd (.inl hnormal) hfree⟩
    apply change_apply_error
    rw [Tree.delete, normalize_eq_error hnormal]
    rfl
  | some p =>
    have hdelete := delete_eq (t := t) hnormal
    have hrefuses : t.RefusesDelete path ↔ p ∉ t.files ∧ t.isDirectory p := by
      rw [RefusesDelete, stat_eq_directory_iff, hnormal]
      simp only [reduceCtorEq, false_or, Option.some.injEq, exists_eq_left',
        h.node?_eq_directory_iff]
      refine ⟨fun hdirectory => ⟨fun hfile => ?_, hdirectory⟩, And.right⟩
      rw [h.file_not_directory p hfile] at hdirectory
      contradiction
    rw [hrefuses]
    split at hdelete
    · next hdirectory =>
      exact ⟨fun _ => ⟨_, change_apply_error hdelete⟩, fun hfree => absurd hdirectory hfree⟩
    · next hfree =>
      refine ⟨fun hdirectory => absurd hdirectory hfree, fun _ => ?_⟩
      refine ⟨p, t.without p, rfl, change_apply_ok hdelete, ?_⟩
      apply h.deleted (Path.isNormal_of_normalize? hnormal)
      rw [not_and_or, not_not, Bool.not_eq_true] at hfree
      exact hfree

/-- The only file of a directory is deleted. -/
theorem delete_spares_others_iff_sharedPrefix : sharedPrefix.WellFormed
    ∧ ¬ sharedPrefix.RefusesDelete "a/b"
    ∧ ∃ t', Workspace.delete "a/b" sharedPrefix = (.ok (), t') ∧ t'.stat "a/b" = .ok none
      ∧ t'.stat "a" = sharedPrefix.stat "a" ∧ t'.read "a-b" = sharedPrefix.read "a-b" := by
  have hwell : sharedPrefix.WellFormed := by decide +kernel
  have hfree : ¬ sharedPrefix.RefusesDelete "a/b" := by decide +kernel
  obtain ⟨p, t', hp, hcall, hdeleted⟩ := (delete_spares_others_iff hwell "a/b").2 hfree
  obtain rfl : "a/b" = p := Option.some.inj hp
  have hothers := hdeleted.others_iff.2 (by decide +kernel)
  exact ⟨hwell, hfree, t', hcall, hdeleted.stat_self, (hothers "a" (by decide)).2,
    (hothers "a-b" (by decide)).1⟩

/-- Deleting `d/f` from the empty tree, which removes nothing, makes a directory of `d`. -/
theorem not_forall_delete_spares_others : ¬ ∀ (t t' : Tree) (path p other : String), t.WellFormed →
    Path.normalize? path = some p → Workspace.delete path t = (.ok (), t') →
    Path.normalize? other ≠ some p →
    t'.read other = t.read other ∧ t'.stat other = t.stat other := by
  intro hall
  have hsame := hall empty _ "d/f" "d/f" "d" wellFormed_empty (by decide) rfl (by decide)
  exact absurd hsame.2 (by decide +kernel)

end Tree

end Sandshell
