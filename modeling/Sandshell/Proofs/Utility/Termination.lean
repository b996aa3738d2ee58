import Sandshell.Proofs.Tree.Keys
import Sandshell.Proofs.Tree.Passages
import Sandshell.Proofs.Utility.Collect
import Sandshell.Proofs.Workspace.Terms

/-!
# Which enumerations end

A tree made of files under any names can show entries under the empty name or under a dot, which stand
for the directory that they are in. A snapshot takes the names in a directory from the last to the
first, a search from the first to the last, and leaves out what is hidden. Each ends exactly if it is
refused something before it comes to such an entry.
-/

namespace Sandshell

open Sandshell.Path (IsName StandsFor isAbsolute join ofSegments segments)
open Sandshell.Walk (Explores IsBlank Terminates Ways)
open scoped Arithmetic

variable {t : Tree} {path name : String} {way : List String} {entry : DirEntry}

/-- The names of the directories that a directory shows, hidden ones left out or not. -/
theorem Search.mem_namesIn_iff {skipHidden : Bool} (h : t.OnlyFiles) (hway : ∀ n ∈ way, IsName n) :
    name ∈ Search.namesIn t skipHidden .directory (ofSegments way)
      ↔ t.GoesOn (way ++ [name]) ∧ (skipHidden → ¬ Search.IsHidden name) := by
  have hshown : ⟨name, .directory⟩ ∈ t.entries (ofSegments way) ↔ t.GoesOn (way ++ [name]) :=
    h.mem_entries_iff hway
  have hkept : ∀ name, (!(skipHidden && decide (Search.IsHidden name))) = true
      ↔ (skipHidden → ¬ Search.IsHidden name) := by simp [imp_iff_not_or]
  simp only [Search.namesIn, List.mem_map, List.mem_filter, decide_eq_true_eq, hkept, ← hshown]
  constructor
  · rintro ⟨⟨n, kind⟩, ⟨⟨hentry, hhidden⟩, rfl⟩, rfl⟩
    exact ⟨hentry, hhidden⟩
  · rintro ⟨hentry, hhidden⟩
    exact ⟨_, ⟨⟨hentry, hhidden⟩, rfl⟩, rfl⟩

/-! ## Snapshots -/

namespace Snapshot

/-- The ways that a snapshot takes. Besides what cannot be listed, files that cannot be read end it. -/
def ways (t : Tree) : Ways where
  passes := t.GoesOn
  refuses way := t.Unlisted way ∨ t.Unread way
  before a b := b < a
  passes_root := t.goesOn_root
  passes_of_concat h := h.of_concat
  bounded := ⟨t.extent, fun _ h => h.length_lt⟩
  before_asymm h := h.asymm

/-- What an entry gives where it can be read. -/
def seen (t : Tree) (directory : String) (entry : DirEntry) :
    List (String × Bytes) × List String :=
  let path := join directory entry.name
  match entry.kind with
  | .directory => ([], [path])
  | .file => ([(path, (t.read path).toOption.getD [])], [])

/-- An entry is read if it is a directory or a file that can be. -/
theorem readEntry_eq_ok
    (h : entry.kind = .file → ∃ data, t.read (join path entry.name) = .ok data) :
    readEntry path entry t = (.ok (seen t path entry), t) := by
  obtain ⟨name, kind⟩ := entry
  cases kind with
  | directory => rfl
  | file =>
    obtain ⟨data, hread⟩ := h rfl
    have hstep : (Workspace.read (join path name) : WorkspaceM Tree Bytes) t = (.ok data, t) :=
      congrArg (·, t) hread
    rw [readEntry, seen, hread]
    exact bind_apply_ok hstep

/-- Otherwise reading it is an error. -/
theorem exists_readEntry_eq_error
    (h : ¬ (entry.kind = .file → ∃ data, t.read (join path entry.name) = .ok data)) :
    ∃ e, readEntry path entry t = (.error e, t) := by
  obtain ⟨name, kind⟩ := entry
  obtain ⟨rfl, hunread⟩ := Classical.not_imp.1 h
  cases hread : t.read (join path name) with
  | ok data => exact absurd ⟨data, hread⟩ hunread
  | error e =>
    have hstep : (Workspace.read (join path name) : WorkspaceM Tree Bytes) t = (.error e, t) :=
      congrArg (·, t) hread
    exact ⟨e, bind_apply_error hstep⟩

theorem readEntry_apply_snd (t : Tree) (path : String) (entry : DirEntry) :
    (readEntry path entry t).2 = t := by
  by_cases hread : entry.kind = .file → ∃ data, t.read (join path entry.name) = .ok data
  · rw [readEntry_eq_ok hread]
  · obtain ⟨e, he⟩ := exists_readEntry_eq_error hread
    rw [he]

/-- The paths to directories among what the entries of a directory give. -/
theorem flatMap_seen (t : Tree) (path d : String) :
    ((t.entries d).map (seen t path)).flatMap Prod.snd
      = (Search.namesIn t false .directory d).map (join path) := by
  rw [Search.namesIn]
  induction t.entries d with
  | nil => rfl
  | cons entry rest ih =>
    obtain ⟨name, kind⟩ := entry
    rw [List.map_cons, List.flatMap_cons, ih]
    cases kind with
    | directory => rfl
    | file => rfl

/-- A directory that is listed and read gives its files and the directories on. -/
theorem visit_apply_of_list {d : String} (hlist : t.list path = .ok (t.entries d))
    (hread : ∀ entry ∈ t.entries d, readEntry path entry t = (.ok (seen t path entry), t)) :
    visit path t = (.ok (((t.entries d).map (seen t path)).flatMap Prod.fst,
      (Search.namesIn t false .directory d).reverse.map (join path)), t) := by
  have hstep : (Workspace.list path : WorkspaceM Tree (List DirEntry)) t = (.ok (t.entries d), t) :=
    congrArg (·, t) hlist
  rw [visit, bind_apply_ok hstep, bind_apply_ok (mapM_apply_ok hread), List.map_reverse,
    ← flatMap_seen t]
  rfl

/-- Visiting explores the ways of the tree. -/
theorem explores (h : t.OnlyFiles) : Explores visit t (ways t) join StandsFor where
  visit_refused := by
    intro path way hpath hpasses hrefuses
    -- a directory that cannot be listed, or one with an entry that cannot be read
    by_cases hunlisted : t.Unlisted way
    · obtain ⟨e, hlist⟩ := Tree.exists_list_eq_error hpath hunlisted
      have hstep : (Workspace.list path : WorkspaceM Tree (List DirEntry)) t = (.error e, t) :=
        congrArg (·, t) hlist
      exact ⟨e, bind_apply_error hstep⟩
    · have hlist := Tree.list_eq_entries hpath hpasses hunlisted
      have hstep : (Workspace.list path : WorkspaceM Tree (List DirEntry)) t
          = (.ok (t.entries (ofSegments way)), t) := congrArg (·, t) hlist
      obtain ⟨key, hkey, name, hsegments, hne, hname, hlast⟩ := hrefuses.resolve_left hunlisted
      have hentry : ⟨name, .file⟩ ∈ t.entries (ofSegments way) :=
        (h.mem_entries_iff (hpath.isName (not_or.1 hunlisted).1)).2 ⟨hne, hlast, key, hkey, hsegments⟩
      have hfails : ∃ e, readEntry path ⟨name, .file⟩ t = (.error e, t) :=
        exists_readEntry_eq_error fun hread =>
          hname ((h.isOk_read_iff hpath hunlisted hentry).1 (hread rfl))
      obtain ⟨e, he⟩ := exists_mapM_apply_error
        (fun entry _ => readEntry_apply_snd t path entry) hentry hfails
      rw [visit, bind_apply_ok hstep]
      exact ⟨e, bind_apply_error he⟩
  visit_open := by
    intro path way hpath hpasses hopen
    obtain ⟨hlisted, hread⟩ := not_or.1 hopen
    have hnames := hpath.isName (not_or.1 hlisted).1
    have hlist := Tree.list_eq_entries hpath hpasses hlisted
    refine ⟨_, _, visit_apply_of_list hlist fun entry hentry => readEntry_eq_ok fun hkind => ?_, ?_,
      fun name => ?_⟩
    -- an entry that cannot be read would be a reason to refuse the directory
    · obtain ⟨name, kind⟩ := entry
      obtain rfl : kind = .file := hkind
      rw [h.isOk_read_iff hpath hlisted hentry]
      by_contra hname
      obtain ⟨hne, hlast, key, hkey, hsegments⟩ := (h.mem_entries_iff hnames).1 hentry
      exact hread ⟨key, hkey, name, hsegments, hne, hname, hlast⟩
    · exact List.pairwise_reverse.2 (Search.pairwise_namesIn t _ _ _)
    · rw [List.mem_reverse, Search.mem_namesIn_iff h hnames]
      exact and_iff_left fun h => by cases h
  stands_child hpath hpasses := hpath.join hpasses.no_slash

end Snapshot

/-! ## Searches -/

namespace Search

/-- The ways that a search takes. It leaves out what is hidden, and reads files later. -/
def ways (t : Tree) : Ways where
  passes way := t.GoesOn way ∧ ∀ name ∈ way, ¬ IsHidden name
  refuses := t.Unlisted
  before a b := a < b
  passes_root := ⟨t.goesOn_root, List.forall_mem_nil _⟩
  passes_of_concat h := ⟨h.1.of_concat, (List.forall_mem_append.1 h.2).1⟩
  bounded := ⟨t.extent, fun _ h => h.1.length_lt⟩
  before_asymm h := h.asymm

/-- What an entry of a target is shown as, and its path. -/
def Target.child (target : Target) (name : String) : Target :=
  ⟨join target.display name, join target.path name⟩

/-- A search explores them, too. -/
theorem explores (h : t.OnlyFiles) :
    Explores (visit true) t (ways t) Target.child fun target => StandsFor target.path where
  visit_refused := by
    intro target way hpath hpasses hrefuses
    obtain ⟨e, hlist⟩ := Tree.exists_list_eq_error hpath hrefuses
    have hstep : (Workspace.list target.path : WorkspaceM Tree (List DirEntry)) t = (.error e, t) :=
      congrArg (·, t) hlist
    exact ⟨e, bind_apply_error hstep⟩
  visit_open := by
    intro target way hpath hpasses hopen
    have hnames := hpath.isName (not_or.1 hopen).1
    have hlist := Tree.list_eq_entries hpath hpasses.1 hopen
    have hstep : (Workspace.list target.path : WorkspaceM Tree (List DirEntry)) t
        = (.ok (t.entries (ofSegments way)), t) := congrArg (·, t) hlist
    refine ⟨(namesIn t true .file (ofSegments way)).map target.child,
      namesIn t true .directory (ofSegments way), ?_, pairwise_namesIn t _ _ _, fun name => ?_⟩
    · rw [visit, bind_apply_ok hstep, namesIn, namesIn, List.map_map, List.map_map]
      rfl
    · rw [mem_namesIn_iff h hnames]
      show _ ↔ t.GoesOn (way ++ [name]) ∧ ∀ n ∈ way ++ [name], ¬ IsHidden n
      rw [List.forall_mem_append, List.forall_mem_singleton]
      exact and_congr_right fun _ =>
        ⟨fun hname => ⟨hpasses.2, hname rfl⟩, fun hnames _ => hnames.2⟩
  stands_child hpath hpasses := hpath.join hpasses.1.no_slash

end Search

/-! ## Trees with normal paths -/

namespace Tree

/-- How much longer than a path the stored paths can be. -/
def room (t : Tree) (path : String) : Nat :=
  match Path.normalize? path with
  | none => 0
  | some d => (t.keys.map fun key => key.toList.length).sum - d.toList.length

namespace HasNormalKeys

variable (h : t.HasNormalKeys)
include h

/-- What is shown in a directory has a longer path, and there is less room for more. -/
theorem keeps_list (path : String) :
    (Invariant.steady (· = t)).Keeps (Workspace.list path : WorkspaceM Tree (List DirEntry))
      fun entries => ∀ entry ∈ entries, t.room (join path entry.name) < t.room path := by
  refine .of_cases (fun t' entries _ ht hlist => ?_) fun t' e _ ht hlist => ?_
  · subst ht
    obtain ⟨hlisted, rfl⟩ := Prod.mk.inj hlist
    obtain ⟨d, hpath, rfl⟩ := exists_normalize?_of_list hlisted
    refine ⟨rfl, fun entry hentry => ?_⟩
    have hname := h.isName_of_mem_entries hentry
    have hlonger := Path.length_lt_join hname.ne_empty d
    have hbound := length_join_le hentry
    rw [room, room, Path.normalize?_join hpath hname, hpath]
    dsimp only
    omega
  · exact (Prod.mk.inj hlist).2.symm.trans ht

/-- Searches of a tree with normal paths terminate, wherever they begin. -/
theorem terminates_search (skipHidden : Bool) (waiting : List Search.Target) :
    Terminates (Search.visit skipHidden) waiting t := by
  refine Walk.terminates_of_lt (fun target => t.room target.path) (fun directory => ?_) waiting
  refine (h.keeps_list directory.path).bind fun entries hentries => Invariant.keeps_pure ?_
  intro target htarget
  obtain ⟨entry, hentry, rfl⟩ := List.mem_map.1 htarget
  exact hentries entry (List.mem_of_mem_filter (List.mem_of_mem_filter hentry))

/-- In such a tree no search goes on for ever. -/
theorem not_searchesForever : ¬ Workspace.SearchesForever t := by
  rintro ⟨skipHidden, cwd, operand, path, stat, t', -, hstat, -, hforever⟩
  obtain rfl := (Prod.mk.inj hstat).2
  exact hforever (h.terminates_search skipHidden _)

/-- So do snapshots. -/
theorem terminates_snapshot (waiting : List String) : Terminates Snapshot.visit waiting t := by
  refine Walk.terminates_of_lt t.room (fun directory => ?_) waiting
  apply (h.keeps_list directory).bind
  intro entries hentries
  have hentry : ∀ entry ∈ entries, (Invariant.steady (· = t)).Keeps
      (Snapshot.readEntry directory entry) fun r => ∀ d ∈ r.2, t.room d < t.room directory := by
    intro entry hmem
    unfold Snapshot.readEntry
    dsimp only
    split
    · exact Invariant.keeps_pure (List.forall_mem_singleton.2 (hentries entry hmem))
    · have hread : (Invariant.steady (· = t)).Keeps
          (Workspace.read (join directory entry.name) : WorkspaceM Tree Bytes) fun _ => True :=
        Invariant.keeps_steady_iff.2 fun _ ht => ht
      exact hread.before fun _ => Invariant.keeps_pure (List.forall_mem_nil _)
  refine (Invariant.Keeps.mapM_of_mem hentry).bind fun found hfound => Invariant.keeps_pure ?_
  intro d hd
  obtain ⟨r, hr, hmem⟩ := List.mem_flatMap.1 (List.mem_reverse.1 hd)
  exact hfound r hr d hmem

end HasNormalKeys

end Tree

/-- Which enumerations of a workspace made of files end. A snapshot, and a search for files below the
root, come to an end after finitely many visits exactly if each loop comes after a refusal: it takes
the names in a directory from the last to the first, or from the first to the last. -/
theorem Tree.enumeration_terminates_iff (files : List (String × Bytes)) :
    (Terminates Snapshot.visit [""] (ofFiles files) ↔ (Snapshot.ways (ofFiles files)).Stops)
      ∧ ∀ display, Terminates (Search.visit true) [⟨display, ""⟩] (ofFiles files)
        ↔ (Search.ways (ofFiles files)).Stops :=
  ⟨(Snapshot.explores (onlyFiles_ofFiles files)).terminates_iff Path.standsFor_root,
    fun _ => (Search.explores (onlyFiles_ofFiles files)).terminates_iff Path.standsFor_root⟩

/-- The root of a tree with a file under a path that begins with a slash shows an entry under the
empty name, which stands for the root: the walk never gets away from it. -/
theorem Tree.not_forall_enumeration_terminates :
    ¬ ∀ files, Terminates Snapshot.visit [""] (ofFiles files)
      ∧ ∀ display, Terminates (Search.visit true) [⟨display, ""⟩] (ofFiles files) := by
  intro h
  have hvisit : Snapshot.visit "" (ofFiles [("/a", [120])])
      = (.ok ([], [""]), ofFiles [("/a", [120])]) := by
    rfl
  refine Walk.not_terminates_of_stays (· = [""]) (by decide) ?_ rfl (h [("/a", [120])]).1
  intro directory waiting hstays
  obtain ⟨rfl, rfl⟩ := List.cons.inj hstays
  exact ⟨[], [""], hvisit, rfl⟩

end Sandshell
