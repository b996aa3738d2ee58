import Mathlib.Data.Finset.Card
import Sandshell.Bundle.Snapshot
import Sandshell.Proofs.Step
import Sandshell.Proofs.Tree.Entries
import Sandshell.Proofs.Tree.Update

/-!
# Snapshots of trees

A walk from the root of a well-formed tree meets every directory once, and so finds every file.
-/

namespace Sandshell

open Sandshell.Path (Below IsNormal isWithin)

variable {t : Tree} {d e p : String} {n : Nat}

/-! ## Visits -/

namespace Snapshot

/-- What an entry of a directory adds to a visit. -/
def entryFound (t : Tree) (directory : String) (entry : DirEntry) :
    List (String × Bytes) × List String :=
  let path := Path.join directory entry.name
  match entry.kind with
  | .directory => ([], [path])
  | .file => ([(path, (t.files[path]?).getD [])], [])

/-- Reading an entry of a well-formed tree never fails. -/
theorem readEntry_apply (h : t.WellFormed) {entry : DirEntry} (hentry : entry ∈ t.entries d) :
    readEntry d entry t = (.ok (entryFound t d entry), t) := by
  obtain ⟨name, kind⟩ := entry
  obtain ⟨hname, hne, hkind⟩ := h.mem_entries_iff.1 hentry
  cases kind with
  | directory => rfl
  | file =>
    have hmem := Tree.mem_of_kind? hkind
    obtain ⟨data, hdata⟩ := Option.isSome_iff_exists.1 (Std.ExtTreeMap.mem_iff_isSome_getElem?.1 hmem)
    have hread : t.read (Path.join d name) = .ok data := by
      rw [Tree.read, normalize_of_isNormal (h.normal_file _ hmem)]
      simp only [bind, Except.bind]
      rw [hdata]
      rfl
    have hstep : (Workspace.read (Path.join d name) : WorkspaceM Tree Bytes) t = (.ok data, t) := by
      show (t.read (Path.join d name), t) = _
      rw [hread]
    rw [readEntry, entryFound]
    dsimp only
    rw [bind_apply_ok hstep, hdata]
    rfl

/-- The files that a visit finds. -/
def filesIn (t : Tree) (directory : String) : List (String × Bytes) :=
  ((t.entries directory).map (entryFound t directory)).flatMap Prod.fst

/-- The directories that a visit hands on. -/
def directoriesIn (t : Tree) (directory : String) : List String :=
  (((t.entries directory).map (entryFound t directory)).flatMap Prod.snd).reverse

/-- A visit finds all files and all directories in a directory. -/
theorem visit_apply (h : t.WellFormed) (hd : t.isDirectory d) :
    visit d t = (.ok (filesIn t d, directoriesIn t d), t) := by
  have hlist : t.list d = .ok (t.entries d) := by
    have hfile : t.files.contains d = false := by
      rw [Bool.eq_false_iff, ne_eq, Std.ExtTreeMap.contains_iff_mem]
      intro hmem
      have hdirectory := h.file_not_directory d hmem
      rw [hd] at hdirectory
      contradiction
    rw [Tree.list, normalize_of_isNormal (h.normal_of_isDirectory hd)]
    show (if t.files.contains d then _ else _) = _
    rw [hfile, hd]
    rfl
  have hstep : (Workspace.list d : WorkspaceM Tree (List DirEntry)) t = (.ok (t.entries d), t) := by
    show (t.list d, t) = _
    rw [hlist]
  rw [visit, bind_apply_ok hstep,
    bind_apply_ok (mapM_apply_ok fun entry hentry => readEntry_apply h hentry)]
  rfl

/-- The files in a directory are those with one more name. -/
theorem mem_filesIn (h : t.WellFormed) {data : Bytes} : (p, data) ∈ filesIn t d
    ↔ ∃ name, '/' ∉ name.toList ∧ name ≠ "" ∧ p = Path.join d name ∧ t.files[p]? = some data := by
  rw [filesIn, List.flatMap_map, List.mem_flatMap]
  constructor
  · rintro ⟨⟨name, kind⟩, hentry, hmem⟩
    obtain ⟨hname, hne, hkind⟩ := h.mem_entries_iff.1 hentry
    cases kind with
    | directory => simp [entryFound] at hmem
    | file =>
      have hfile := Tree.mem_of_kind? hkind
      simp only [entryFound, List.mem_singleton, Prod.mk.injEq] at hmem
      obtain ⟨rfl, rfl⟩ := hmem
      refine ⟨name, hname, hne, rfl, ?_⟩
      rw [Std.ExtTreeMap.getElem?_eq_some_getElem hfile]
      rfl
  · rintro ⟨name, hname, hne, rfl, hdata⟩
    have hfile : Path.join d name ∈ t.files :=
      Std.ExtTreeMap.mem_iff_isSome_getElem?.2 (hdata ▸ rfl)
    refine ⟨⟨name, .file⟩, h.mem_entries_iff.2 ⟨hname, hne, Tree.kind?_of_mem hfile⟩, ?_⟩
    simp [entryFound, hdata]

/-- The directories in a directory are those with one more name. -/
theorem mem_directoriesIn (h : t.WellFormed) : e ∈ directoriesIn t d
    ↔ ∃ name, '/' ∉ name.toList ∧ name ≠ "" ∧ e = Path.join d name
      ∧ t.kind? e = some .directory := by
  rw [directoriesIn, List.mem_reverse, List.flatMap_map, List.mem_flatMap]
  constructor
  · rintro ⟨⟨name, kind⟩, hentry, hmem⟩
    obtain ⟨hname, hne, hkind⟩ := h.mem_entries_iff.1 hentry
    cases kind with
    | directory =>
      simp only [entryFound, List.mem_singleton] at hmem
      exact ⟨name, hname, hne, hmem, hmem ▸ hkind⟩
    | file => simp [entryFound] at hmem
  · rintro ⟨name, hname, hne, rfl, hkind⟩
    exact ⟨⟨name, .directory⟩, h.mem_entries_iff.2 ⟨hname, hne, hkind⟩, by simp [entryFound]⟩

/-! ## Directories left to visit -/

/-- The paths that the first segments of the stored paths spell; all directories are among them. -/
def spelled (t : Tree) : List String :=
  "" :: t.keys.flatMap fun key => (List.range (Path.segments key).length).map fun n =>
    Path.ofSegments ((Path.segments key).take (n + 1))

/-- The extent of a tree counts the spellings of its directories, each once. -/
theorem length_spelled (t : Tree) : (spelled t).length = t.extent := by
  rw [spelled, Tree.extent, List.length_cons, List.length_flatMap, Nat.add_comm]
  simp

/-- Each directory is among those spelled. -/
theorem mem_spelled (hd : t.isDirectory d) : d ∈ spelled t := by
  have hkey : ∀ key, t.IsKey key → (∃ rest, Path.segments key = Path.segments d ++ rest) →
      d ∈ spelled t := by
    rintro key hkey ⟨rest, hsegments⟩
    have hpos := List.length_pos_of_ne_nil (Path.segments_ne_nil d)
    refine List.mem_cons_of_mem _ (List.mem_flatMap.2 ⟨key, Tree.mem_keys.2 hkey,
      List.mem_map.2 ⟨(Path.segments d).length - 1, ?_, ?_⟩⟩)
    · rw [List.mem_range, hsegments, List.length_append]
      omega
    · rw [hsegments, Nat.sub_add_cancel hpos, List.take_left, Path.ofSegments_segments]
  -- the root comes first in the list, any other directory from a path at or below it
  rcases Tree.isDirectory_iff.1 hd with rfl | hmem | ⟨key, hmem, hbelow⟩
  · exact List.mem_cons_self
  · exact hkey d (.inr hmem) ⟨[], (List.append_nil _).symm⟩
  · obtain ⟨rest, rfl⟩ := Path.below_iff.1 hbelow
    exact hkey _ hmem ⟨Path.segments rest, Path.segments_append d rest⟩

/-- The directories that are still to be visited when some directories are waiting. -/
def pending (t : Tree) (waiting : List String) : Finset String :=
  (spelled t).toFinset.filter fun d => t.isDirectory d ∧ ∃ e ∈ waiting, isWithin e d

theorem mem_pending {waiting : List String} :
    p ∈ pending t waiting ↔ t.isDirectory p ∧ ∃ e ∈ waiting, isWithin e p := by
  rw [pending, Finset.mem_filter, List.mem_toFinset]
  exact and_iff_right_of_imp fun h => mem_spelled h.1

/-- No more directories than the extent of the tree are ever pending. -/
theorem card_pending_le (t : Tree) (waiting : List String) :
    (pending t waiting).card ≤ t.extent := by
  rw [← length_spelled]
  exact (Finset.card_filter_le _ _).trans (List.toFinset_card_le _)

/-- Neither path is within the other. -/
def Apart (d e : String) : Prop :=
  ¬ isWithin d e ∧ ¬ isWithin e d

/-- Different names in a directory lead to places apart from each other. -/
theorem apart_join {name other : String} (hname : '/' ∉ name.toList) (hother : '/' ∉ other.toList)
    (hne : name ≠ "") (hne' : other ≠ "") (h : name ≠ other) :
    Apart (Path.join d name) (Path.join d other) := by
  constructor
  · rw [Path.isWithin_iff, not_or, not_or]
    exact ⟨Path.join_ne_empty hne, fun heq => h (Path.join_inj heq).symm,
      Path.not_below_join hother⟩
  · rw [Path.isWithin_iff, not_or, not_or]
    exact ⟨Path.join_ne_empty hne', fun heq => h (Path.join_inj heq), Path.not_below_join hname⟩

/-- What is apart from a directory is apart from what stands in it. -/
theorem Apart.join {name : String} (h : Apart d e) (hname : '/' ∉ name.toList) (hne : name ≠ "") :
    Apart (Path.join d name) e := by
  have hin : isWithin d (Path.join d name) := Path.isWithin_join (Path.isWithin_self d) name
  constructor
  · intro hwithin
    exact h.1 (Path.isWithin_trans hin hwithin (Path.join_ne_empty hne))
  · intro hwithin
    have hneq : Path.join d name ≠ e := by
      rintro rfl
      exact h.1 hin
    have hup := Path.isWithin_parent hwithin hneq
    rw [Path.parent_join hname] at hup
    exact h.2 hup

theorem eq_join_of_mem_entryFound {entry : DirEntry} (he : e ∈ (entryFound t d entry).2) :
    e = Path.join d entry.name := by
  rw [entryFound] at he
  cases hkind : entry.kind with
  | directory =>
    rw [hkind] at he
    exact List.mem_singleton.1 he
  | file =>
    rw [hkind] at he
    contradiction

/-- The directories in a directory are apart from each other. -/
theorem pairwise_directoriesIn (h : t.WellFormed) (d : String) :
    (directoriesIn t d).Pairwise Apart := by
  have hentries : (t.entries d).Pairwise fun a b => a.name ≠ b.name := by
    rw [Tree.entries, List.pairwise_map]
    refine Std.ExtTreeMap.distinct_keys_toList.imp fun hab heq => ?_
    exact hab (Std.compare_eq_iff_eq.2 heq)
  have hfound : (((t.entries d).map (entryFound t d)).flatMap Prod.snd).Pairwise Apart := by
    rw [List.flatMap_map, List.pairwise_flatMap]
    refine ⟨fun entry _ => ?_, hentries.imp_of_mem fun ha hb hab x hx y hy => ?_⟩
    · cases hkind : entry.kind with
      | directory => simp [entryFound, hkind]
      | file => simp [entryFound, hkind]
    · obtain ⟨hname, hne, -⟩ := h.mem_entries_iff.1 ha
      obtain ⟨hname', hne', -⟩ := h.mem_entries_iff.1 hb
      rw [eq_join_of_mem_entryFound hx, eq_join_of_mem_entryFound hy]
      exact apart_join hname hname' hne hne' hab
  rw [directoriesIn, List.pairwise_reverse]
  exact hfound.imp fun hab => ⟨hab.2, hab.1⟩

/-- A directory and what is waiting after it, with the directories in it instead: still directories,
and still apart from each other. -/
theorem directoriesIn_append {rest : List String} (h : t.WellFormed)
    (hwaiting : ∀ e ∈ d :: rest, t.isDirectory e) (hapart : (d :: rest).Pairwise Apart) :
    (∀ e ∈ directoriesIn t d ++ rest, t.isDirectory e)
      ∧ (directoriesIn t d ++ rest).Pairwise Apart := by
  obtain ⟨hfirst, hrest⟩ := List.pairwise_cons.1 hapart
  constructor
  · intro e he
    rcases List.mem_append.1 he with he | he
    · obtain ⟨-, -, -, -, hkind⟩ := (mem_directoriesIn h).1 he
      exact Tree.isDirectory_of_kind? hkind
    · exact hwaiting e (List.mem_cons_of_mem _ he)
  · rw [List.pairwise_append]
    refine ⟨pairwise_directoriesIn h d, hrest, fun e he other hother => ?_⟩
    obtain ⟨name, hname, hne, rfl, -⟩ := (mem_directoriesIn h).1 he
    exact (hfirst other hother).join hname hne

/-- A visit takes its directory from those that are pending, and adds none. -/
theorem card_pending_lt {rest : List String} (h : t.WellFormed) (hd : t.isDirectory d)
    (hapart : (d :: rest).Pairwise Apart) :
    (pending t (directoriesIn t d ++ rest)).card < (pending t (d :: rest)).card := by
  apply Finset.card_lt_card
  rw [Finset.ssubset_iff_of_subset]
  · refine ⟨d, mem_pending.2 ⟨hd, d, List.mem_cons_self, Path.isWithin_self d⟩, ?_⟩
    rw [mem_pending]
    rintro ⟨-, e, he, hwithin⟩
    rcases List.mem_append.1 he with he | he
    · obtain ⟨name, hname, hne, rfl, -⟩ := (mem_directoriesIn h).1 he
      have hup := Path.not_isWithin_parent (Path.join_ne_empty (d := d) hne)
      rw [Path.parent_join hname] at hup
      exact hup hwithin
    · exact ((List.pairwise_cons.1 hapart).1 e he).2 hwithin
  · intro p hp
    obtain ⟨hdirectory, e, he, hwithin⟩ := mem_pending.1 hp
    rcases List.mem_append.1 he with he | he
    · obtain ⟨name, hname, hne, rfl, -⟩ := (mem_directoriesIn h).1 he
      have hin := Path.isWithin_join (Path.isWithin_self d) name
      exact mem_pending.2 ⟨hdirectory, d, List.mem_cons_self,
        Path.isWithin_trans hin hwithin (Path.join_ne_empty hne)⟩
    · exact mem_pending.2 ⟨hdirectory, e, List.mem_cons_of_mem _ he, hwithin⟩

/-- A file within a directory is found by the visit of it, or within a directory in it. -/
theorem mem_filesIn_or (h : t.WellFormed) (hd : t.isDirectory d) (p : String) (data : Bytes) :
    t.files[p]? = some data ∧ isWithin d p
      ↔ (p, data) ∈ filesIn t d ∨ t.files[p]? = some data ∧ ∃ e ∈ directoriesIn t d, isWithin e p := by
  constructor
  · rintro ⟨hdata, hwithin⟩
    have hp : p ∈ t.files := Std.ExtTreeMap.mem_iff_isSome_getElem?.2 (hdata ▸ rfl)
    have hdiffer : p ≠ d := by
      rintro rfl
      have hfile := h.file_not_directory _ hp
      rw [hd] at hfile
      contradiction
    obtain ⟨name, hname, hne, heq | hbelow⟩ :=
      Path.exists_isWithin_join hwithin (h.normal_file p hp) hdiffer
    · exact .inl ((mem_filesIn h).2 ⟨name, hname, hne, heq, hdata⟩)
    · have hfile : Path.join d name ∉ t.files := fun hmem => h.not_below hmem (.inl hp) hbelow
      have hkind := Tree.kind?_of_isDirectory hfile (Tree.isDirectory_of_below_key (.inl hp) hbelow)
      exact .inr ⟨hdata, _, (mem_directoriesIn h).2 ⟨name, hname, hne, rfl, hkind⟩, hbelow.isWithin⟩
  · rintro (hmem | ⟨hdata, e, he, hwithin⟩)
    · obtain ⟨name, -, -, rfl, hdata⟩ := (mem_filesIn h).1 hmem
      exact ⟨hdata, Path.isWithin_join (Path.isWithin_self d) name⟩
    · obtain ⟨name, -, hne, rfl, -⟩ := (mem_directoriesIn h).1 he
      have hin := Path.isWithin_join (Path.isWithin_self d) name
      exact ⟨hdata, Path.isWithin_trans hin hwithin (Path.join_ne_empty hne)⟩

/-! ## Walks -/

/-- With enough visits left for the directories that are pending, a walk finds the files that are
within those that are waiting. -/
theorem run_visit (h : t.WellFormed) {waiting : List String}
    (hwaiting : ∀ d ∈ waiting, t.isDirectory d) (hapart : waiting.Pairwise Apart)
    (hn : (pending t waiting).card ≤ n) :
    ∃ found, Walk.run visit n waiting t = (.ok found, t) ∧ ∀ p data,
      (p, data) ∈ found ↔ t.files[p]? = some data ∧ ∃ d ∈ waiting, isWithin d p := by
  induction n generalizing waiting with
  | zero =>
    cases waiting with
    | nil => exact ⟨[], rfl, by simp⟩
    | cons d rest =>
      have hd : d ∈ pending t (d :: rest) :=
        mem_pending.2 ⟨hwaiting d List.mem_cons_self, d, List.mem_cons_self, Path.isWithin_self d⟩
      rw [Finset.card_eq_zero.1 (Nat.le_zero.1 hn)] at hd
      exact absurd hd (Finset.notMem_empty d)
  | succ n ih =>
    cases waiting with
    | nil => exact ⟨[], rfl, by simp⟩
    | cons d rest =>
      have hd : t.isDirectory d := hwaiting d List.mem_cons_self
      obtain ⟨hwaiting', hapart'⟩ := directoriesIn_append h hwaiting hapart
      -- the visited directory leaves those that are pending, so the visits that are left suffice
      have hless := card_pending_lt h hd hapart
      obtain ⟨found, hrun, hfound⟩ := ih hwaiting' hapart' (by omega)
      refine ⟨filesIn t d ++ found, ?_, fun p data => ?_⟩
      · rw [Walk.run, bind_apply_ok (visit_apply h hd)]
        dsimp only
        rw [bind_apply_ok hrun]
        rfl
      · have hvisit := mem_filesIn_or h hd p data
        simp only [List.mem_append, hfound, List.mem_cons, or_and_right, exists_or, and_or_left,
          exists_eq_left, hvisit, or_assoc]

/-- A snapshot of a well-formed tree holds all its files, and leaves the tree alone. -/
theorem take_apply (h : t.WellFormed) : (take : WorkspaceM Tree FileSet) t = (.ok t.files, t) := by
  have hwaiting : ∀ d ∈ [""], t.isDirectory d := by
    intro d hd
    rw [List.mem_singleton.1 hd]
    exact t.isDirectory_root
  obtain ⟨found, hrun, hfound⟩ :=
    run_visit h hwaiting (List.pairwise_singleton _ _) (card_pending_le t [""])
  have hbelow : Walk.below (W := Tree) visit "" t = (.ok found, t) := hrun
  have hsound : ∀ e ∈ found, t.files[e.1]? = some e.2 := by
    rintro ⟨p, data⟩ he
    exact ((hfound p data).1 he).1
  have hcomplete : ∀ p ∈ t.files, p ∈ found.map Prod.fst := by
    intro p hp
    obtain ⟨data, hdata⟩ := Option.isSome_iff_exists.1 (Std.ExtTreeMap.mem_iff_isSome_getElem?.1 hp)
    have hmem := (hfound p data).2 ⟨hdata, "", List.mem_cons_self, Path.isWithin_iff.2 (.inl rfl)⟩
    exact List.mem_map.2 ⟨_, hmem, rfl⟩
  rw [take, bind_apply_ok hbelow,
    foldl_insert_eq hsound hcomplete fun p hp => absurd hp not_mem_empty]
  rfl

end Snapshot

end Sandshell
