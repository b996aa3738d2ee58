import Mathlib.Algebra.Order.BigOperators.Group.List
import Sandshell.Proofs.Path.Ways
import Sandshell.Proofs.Tree.Answers
import Sandshell.Proofs.Workspace.Exploration

/-!
# Ways through any tree

The names in a stored path need not be names: they can be empty, dots, or hold a NUL. A directory
shows what the first segments of the stored paths spell, whatever they are. So a directory is told by
the way to it, and a path that stands for the end of a way can be listed unless a name on the way, or
a file at its end, forbids it.
-/

namespace Sandshell

open Sandshell.Path (Below IsName IsNormal components isAbsolute join ofSegments segments)
open Sandshell.Walk (IsBlank Ways)

variable {t : Tree} {path key name : String} {way names : List String}

namespace Path

/-- What lies below a path goes on after its segments. -/
theorem below_iff_segments {d p : String} :
    Below d p ↔ ∃ rest, rest ≠ [] ∧ segments p = segments d ++ rest := by
  rw [below_iff]
  constructor
  · rintro ⟨rest, rfl⟩
    exact ⟨segments rest, segments_ne_nil rest, segments_append d rest⟩
  · rintro ⟨rest, hne, hsegments⟩
    refine ⟨ofSegments rest, ?_⟩
    rw [← ofSegments_segments p, hsegments, ofSegments_append (segments_ne_nil d) hne,
      ofSegments_segments]

/-- The segments of a name in a directory are those of the directory and the name. -/
theorem segments_join_ofSegments (hway : ∀ n ∈ way, IsName n) (hname : '/' ∉ name.toList) :
    segments (join (ofSegments way) name) = way ++ [name] := by
  by_cases hne : way = []
  · rw [hne, ofSegments_nil, join_empty, segments_of_no_slash hname]
    rfl
  · have hsegments := segments_ofSegments hne fun n hn => (hway n hn).no_slash
    have hdirectory : ofSegments way ≠ "" := by
      intro hempty
      rw [hempty, segments_empty] at hsegments
      exact (hway "" (hsegments ▸ List.mem_singleton_self "")).ne_empty rfl
    rw [join_of_ne hdirectory, segments_append, hsegments, segments_of_no_slash hname]

/-- The path is relative, and its names are those of the way. -/
structure StandsFor (path : String) (way : List String) : Prop where
  components_eq : components path = way
  isAbsolute_eq : isAbsolute path = false

theorem standsFor_root : StandsFor "" [] :=
  ⟨rfl, rfl⟩

/-- A name after a path that stands for a way leads on along it. -/
theorem StandsFor.join (h : StandsFor path way) (hname : '/' ∉ name.toList) :
    StandsFor (Path.join path name) (Ways.onward way name) := by
  have hlast : components name = if IsBlank name then [] else [name] := by
    rw [components, segments_of_no_slash hname]
    by_cases hblank : IsBlank name
    · rw [if_pos hblank]
      rcases hblank with rfl | rfl <;> rfl
    · rw [if_neg hblank, List.filter_eq_self]
      simpa [IsBlank] using hblank
  have honward : Ways.onward way name = way ++ components name := by
    rw [hlast]
    by_cases hblank : IsBlank name
    · rw [Ways.onward_of_isBlank hblank, if_pos hblank, List.append_nil]
    · rw [Ways.onward_of_not hblank, if_neg hblank]
  rw [honward]
  by_cases hpath : path = ""
  · subst hpath
    rw [join_empty, ← h.components_eq]
    refine ⟨rfl, ?_⟩
    rw [isAbsolute, decide_eq_false_iff_not]
    exact fun hhead => hname (List.mem_of_mem_head? hhead)
  · rw [join_of_ne hpath]
    constructor
    · rw [components, segments_append, List.filter_append, segments_of_no_slash hname,
        ← h.components_eq, components, components, segments_of_no_slash hname]
    · rw [String.append_assoc, isAbsolute_append hpath, h.isAbsolute_eq]

/-- Some name on the way is two dots or holds a NUL. -/
def Forbids (way : List String) : Prop :=
  ∃ name ∈ way, name = ".." ∨ hasNul name

/-- A way by proper names is never forbidden. -/
theorem not_forbids (hway : ∀ n ∈ way, IsName n) : ¬ Forbids way := by
  rintro ⟨name, hname, hdots | hnul⟩
  · exact (hway name hname).ne_dots hdots
  · exact (hway name hname).no_nul (List.contains_iff_mem.1 hnul)

/-- What stands for a way with a name that is forbidden has no normal form. -/
theorem StandsFor.normalize?_eq_none (h : StandsFor path way) (hforbids : Forbids way) :
    normalize? path = none := by
  by_contra hsome
  obtain ⟨p, hp⟩ := Option.ne_none_iff_exists'.1 hsome
  obtain ⟨hnames, -⟩ := of_normalize?_eq_some hp
  exact not_forbids hnames (h.components_eq ▸ hforbids)

/-- The other names on a way that a path stands for are all right. -/
theorem StandsFor.isName (h : StandsFor path way) (hallows : ¬ Forbids way) :
    ∀ name ∈ way, IsName name := by
  intro name hname
  have hmem := hname
  rw [← h.components_eq] at hmem
  obtain ⟨hsegment, hkept⟩ := List.mem_filter.1 hmem
  rw [decide_eq_true_eq] at hkept
  refine ⟨hkept.1, hkept.2, fun hdots => hallows ⟨name, hname, .inl hdots⟩,
    no_slash_of_mem_segments hsegment, fun hnul => hallows ⟨name, hname, .inr ?_⟩⟩
  exact List.contains_iff_mem.2 hnul

/-- A path that stands for a way normalizes to it. -/
theorem StandsFor.normalize?_eq (h : StandsFor path way) (hallows : ¬ Forbids way) :
    normalize? path = some (ofSegments way) := by
  have hnames := h.isName hallows
  rw [← h.components_eq] at hnames ⊢
  have hnul : hasNul path = false := by
    rw [hasNul, Bool.eq_false_iff, ne_eq, List.contains_iff_mem]
    intro hmem
    -- a NUL stands in a segment, which is neither empty nor a dot then
    rw [← ofSegments_segments path] at hmem
    rcases mem_ofSegments hmem with hslash | ⟨name, hname, hnul⟩
    · exact absurd hslash (by decide)
    have hkept : name ∈ components path := by
      refine List.mem_filter.2 ⟨hname, decide_eq_true ⟨?_, ?_⟩⟩
      · rintro rfl
        exact absurd hnul (by decide)
      · rintro rfl
        exact absurd hnul (by decide)
    exact (hnames name hkept).no_nul hnul
  exact normalize?_of_components hnul h.isAbsolute_eq fun hdots => (hnames _ hdots).ne_dots rfl

end Path

namespace Tree

/-- Nothing is stored but files. -/
def OnlyFiles (t : Tree) : Prop :=
  ∀ p, p ∉ t.directories

theorem onlyFiles_ofFiles (files : List (String × Bytes)) : (ofFiles files).OnlyFiles :=
  fun _ => Std.ExtTreeSet.not_mem_empty

/-- Without recorded directories the keys are the files. -/
theorem OnlyFiles.mem_keys (h : t.OnlyFiles) : key ∈ t.keys ↔ key ∈ t.files := by
  rw [Tree.mem_keys]
  exact or_iff_left (h key)

/-- The way leads to a directory: to the root, or the path of a file goes on after it. -/
def GoesOn (t : Tree) (way : List String) : Prop :=
  way = [] ∨ ∃ key ∈ t.files, ∃ rest, rest ≠ [] ∧ segments key = way ++ rest

theorem goesOn_root (t : Tree) : t.GoesOn [] :=
  .inl rfl

/-- A way that goes on does so from its beginning. -/
theorem GoesOn.of_concat (h : t.GoesOn (way ++ [name])) : t.GoesOn way := by
  obtain hnil | ⟨key, hkey, rest, -, hsegments⟩ := h
  · simp at hnil
  · exact .inr ⟨key, hkey, name :: rest, List.cons_ne_nil _ _, by simp [hsegments]⟩

/-- It goes on by names without slash. -/
theorem GoesOn.no_slash (h : t.GoesOn (way ++ [name])) : '/' ∉ name.toList := by
  obtain hnil | ⟨key, hkey, rest, -, hsegments⟩ := h
  · simp at hnil
  · have hmem : name ∈ segments key := by simp [hsegments]
    exact Path.no_slash_of_mem_segments hmem

/-- A way is shorter than the extent of the tree. -/
theorem GoesOn.length_lt (h : t.GoesOn way) : way.length < t.extent := by
  rw [extent]
  obtain rfl | ⟨key, hkey, rest, -, hsegments⟩ := h
  · exact Nat.add_pos_left Nat.one_pos _
  · have hmem : (segments key).length ∈ t.keys.map fun key => (segments key).length :=
      List.mem_map_of_mem (Tree.mem_keys.2 (.inl hkey))
    have hle := List.le_sum_of_mem hmem
    rw [hsegments, List.length_append] at hle
    omega

/-- It goes on by a name exactly if some key is below. -/
theorem goesOn_concat_iff (hway : ∀ n ∈ way, IsName n) (hname : '/' ∉ name.toList) :
    t.GoesOn (way ++ [name]) ↔ ∃ key ∈ t.files, Below (join (ofSegments way) name) key := by
  simp only [Path.below_iff_segments, Path.segments_join_ofSegments hway hname]
  exact or_iff_right (by simp)

/-- A way that goes on leads to a directory. -/
theorem GoesOn.isDirectory (h : t.GoesOn way) (hway : ∀ n ∈ way, IsName n) :
    t.isDirectory (ofSegments way) := by
  obtain rfl | ⟨key, hkey, rest, hrest, hsegments⟩ := h
  · exact t.isDirectory_root
  by_cases hne : way = []
  · rw [hne]
    exact t.isDirectory_root
  refine isDirectory_of_below_key (.inl hkey) (Path.below_iff_segments.2 ⟨rest, hrest, ?_⟩)
  rwa [Path.segments_ofSegments hne fun n hn => (hway n hn).no_slash]

/-! ## Listings -/

/-- A directory shows what is further down, and the files in it. -/
theorem OnlyFiles.mem_entries_iff (h : t.OnlyFiles) (hway : ∀ n ∈ way, IsName n)
    {kind : EntryKind} : ⟨name, kind⟩ ∈ t.entries (ofSegments way) ↔
      match kind with
      | .directory => t.GoesOn (way ++ [name])
      | .file => name ≠ "" ∧ ¬ t.GoesOn (way ++ [name])
          ∧ ∃ key ∈ t.files, segments key = way ++ [name] := by
  rw [mem_entries_iff_getElem?]
  -- a name with a slash is neither listed nor gone on by
  by_cases hname : '/' ∈ name.toList
  · rw [getElem?_foldl_addEntry_of_slash t _ _ hname]
    have hgoesOn : ¬ t.GoesOn (way ++ [name]) := fun hgoesOn => hgoesOn.no_slash hname
    have hkey : ¬ ∃ key ∈ t.files, segments key = way ++ [name] := by
      rintro ⟨key, -, hsegments⟩
      have hmem : name ∈ segments key := by simp [hsegments]
      exact Path.no_slash_of_mem_segments hmem hname
    cases kind <;> simp [hgoesOn, hkey]
  have hgoesOn : (∃ key ∈ t.keys, Below (join (ofSegments way) name) key)
      ↔ t.GoesOn (way ++ [name]) := by
    simp only [goesOn_concat_iff hway hname, h.mem_keys]
  have hkey : (∃ key ∈ t.files, segments key = way ++ [name])
      ↔ join (ofSegments way) name ∈ t.keys := by
    rw [h.mem_keys]
    have hsegments := Path.segments_join_ofSegments hway hname
    constructor
    · rintro ⟨key, hkey, heq⟩
      rwa [← Path.ofSegments_segments (join _ _), hsegments, ← heq, Path.ofSegments_segments]
    · exact fun hmem => ⟨_, hmem, hsegments⟩
  rw [getElem?_foldl_addEntry t _ _ hname, hkey]
  -- what is below the name makes it a directory, whatever stands at it
  by_cases hbelow : t.GoesOn (way ++ [name])
  · rw [if_pos (hgoesOn.2 hbelow)]
    cases kind <;> simp [hbelow]
  rw [if_neg (mt hgoesOn.1 hbelow)]
  by_cases hfile : name ≠ "" ∧ join (ofSegments way) name ∈ t.keys
  · have hkind : t.storedKind (join (ofSegments way) name) = .file :=
      if_pos (Std.ExtTreeMap.contains_iff_mem.2 (h.mem_keys.1 hfile.2))
    rw [if_pos hfile, hkind]
    cases kind <;> simp [hbelow, hfile]
  · rw [if_neg hfile]
    cases kind with
    | file => simpa [hbelow] using hfile
    | directory => simp [hbelow]

/-- What stands at the end of the way cannot be listed. -/
def Unlisted (t : Tree) (way : List String) : Prop :=
  Path.Forbids way ∨ ofSegments way ∈ t.files

/-- Some file at the end of the way cannot be read. -/
def Unread (t : Tree) (way : List String) : Prop :=
  ∃ key ∈ t.files, ∃ name, segments key = way ++ [name] ∧ name ≠ "" ∧ ¬ IsName name
    ∧ ¬ t.GoesOn (way ++ [name])

/-- Directories that cannot be listed are an error. -/
theorem exists_list_eq_error (hpath : Path.StandsFor path way) (h : t.Unlisted way) :
    ∃ e, t.list path = .error e := by
  cases hlist : t.list path with
  | error e => exact ⟨e, rfl⟩
  | ok listed =>
    by_cases hforbids : Path.Forbids way
    · rw [Tree.list, normalize_eq_error (hpath.normalize?_eq_none hforbids)] at hlist
      contradiction
    · have hnormal := hpath.normalize?_eq hforbids
      have hp := Path.isNormal_of_normalize? hnormal
      rw [(alike_of_normalize? hnormal hp t []).2.2.1, list_eq_ok_iff hp] at hlist
      obtain ⟨data, hdata⟩ := Option.isSome_iff_exists.1
        (Std.ExtTreeMap.mem_iff_isSome_getElem?.1 (h.resolve_left hforbids))
      rw [node?_eq_file_iff.2 hdata] at hlist
      cases hlist.1

/-- All others give their entries. -/
theorem list_eq_entries (hpath : Path.StandsFor path way) (hgoesOn : t.GoesOn way)
    (h : ¬ t.Unlisted way) : t.list path = .ok (t.entries (ofSegments way)) := by
  rw [Unlisted, not_or] at h
  have hnormal := hpath.normalize?_eq h.1
  have hp := Path.isNormal_of_normalize? hnormal
  rw [(alike_of_normalize? hnormal hp t []).2.2.1, list_eq_ok_iff hp]
  refine ⟨?_, rfl⟩
  rw [node?, Std.ExtTreeMap.getElem?_eq_none h.2, hgoesOn.isDirectory (hpath.isName h.1)]
  rfl

/-- A file that a directory shows can be read exactly if it is shown under a name. -/
theorem OnlyFiles.isOk_read_iff (ht : t.OnlyFiles) (hpath : Path.StandsFor path way)
    (h : ¬ t.Unlisted way) (hentry : ⟨name, .file⟩ ∈ t.entries (ofSegments way)) :
    (∃ data, t.read (join path name) = .ok data) ↔ IsName name := by
  rw [Unlisted, not_or] at h
  obtain ⟨hne, -, key, hkey, hsegments⟩ := (ht.mem_entries_iff (hpath.isName h.1)).1 hentry
  have hsegment : name ∈ segments key := by simp [hsegments]
  have hslash := Path.no_slash_of_mem_segments hsegment
  have hchild := hpath.join hslash
  simp only [read_eq_ok_iff_node?]
  constructor
  · rintro ⟨data, p, hnormal, hnode⟩
    have hblank : ¬ IsBlank name := by
      rintro (rfl | rfl)
      · exact hne rfl
      · -- the dot stands for the directory, which is no file
        rw [Ways.onward_of_isBlank (.inr rfl)] at hchild
        obtain rfl := Option.some.inj (hnormal.symm.trans (hchild.normalize?_eq h.1))
        rw [node?_eq_file_iff, Std.ExtTreeMap.getElem?_eq_none h.2] at hnode
        contradiction
    rw [Ways.onward_of_not hblank] at hchild
    have hallows : ¬ Path.Forbids (way ++ [name]) := by
      intro hforbids
      rw [hchild.normalize?_eq_none hforbids] at hnormal
      contradiction
    exact hchild.isName hallows name (List.mem_append_right _ (List.mem_singleton_self name))
  · intro hname
    rw [Ways.onward_of_not (not_or.2 ⟨hne, hname.ne_dot⟩)] at hchild
    have hallows := Path.not_forbids (Path.isName_concat (hpath.isName h.1) hname)
    obtain ⟨data, hdata⟩ := Option.isSome_iff_exists.1 (Std.ExtTreeMap.mem_iff_isSome_getElem?.1 hkey)
    refine ⟨data, _, hchild.normalize?_eq hallows, node?_eq_file_iff.2 ?_⟩
    rwa [← hsegments, Path.ofSegments_segments]

end Tree

end Sandshell
