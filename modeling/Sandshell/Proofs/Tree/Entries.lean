import Mathlib.Data.String.Basic
import Sandshell.Proofs.Tree.Directories

/-!
# Entries of a directory

What a tree shows under a name depends only on which paths are stored, not on their order: a
directory if a stored path goes on below the name, and otherwise what is stored under it.
-/

namespace Sandshell.Tree

open Sandshell.Path (Below isWithin)

variable {t : Tree} {d name key : String} {keys : List String}
variable {shown : Std.ExtTreeMap String EntryKind compare}

/-- The kind that a stored path shows at itself. -/
def storedKind (t : Tree) (key : String) : EntryKind :=
  if t.files.contains key then .file else .directory

/-- A path below a directory that goes on below a name in it shows a directory. -/
theorem addEntry_of_below (hname : '/' ∉ name.toList) (h : Below (Path.join d name) key) :
    t.addEntry d shown key = shown.insert name .directory := by
  obtain ⟨rest, rfl⟩ := Path.below_iff.1 h
  have hrest : Path.below? d (Path.join d name ++ "/" ++ rest) = some (name ++ "/" ++ rest) := by
    by_cases hd : d = ""
    · rw [hd, Path.join_empty, Path.below?, if_pos rfl]
    · rw [Path.below?_eq_some_iff hd, Path.join_of_ne hd]
      simp only [String.append_assoc]
  rw [addEntry]
  simp only [hrest, Path.splitFirst?_append hname]

/-- A path in a directory shows itself unless its name was shown before. -/
theorem addEntry_join (hname : '/' ∉ name.toList) (hne : name ≠ "") :
    t.addEntry d shown (Path.join d name)
      = shown.insertIfNew name (t.storedKind (Path.join d name)) := by
  rw [addEntry]
  simp only [Path.below?_join, Path.splitFirst?_of_no_slash hname, if_neg hne]
  rfl

/-- A path that is not below a directory, or is its path with a slash, shows nothing in it. Any
other path shows what is at, or below, a name in the directory. -/
theorem addEntry_cases (t : Tree) (d key : String) :
    (∀ shown, t.addEntry d shown key = shown) ∨ ∃ name, '/' ∉ name.toList
      ∧ (Below (Path.join d name) key ∨ name ≠ "" ∧ key = Path.join d name) := by
  cases hbelow : Path.below? d key with
  | none =>
    left
    intro shown
    rw [addEntry, hbelow]
  | some rest =>
    have hkey := Path.eq_join_of_below? hbelow
    by_cases hslash : '/' ∈ rest.toList
    · obtain ⟨name, tail, rfl, hname⟩ := Path.exists_eq_append_first hslash
      refine .inr ⟨name, hname, .inl (Path.below_iff.2 ⟨tail, ?_⟩)⟩
      rw [hkey, Path.join_append]
    · by_cases hrest : rest = ""
      · left
        intro shown
        rw [addEntry]
        simp only [hbelow, Path.splitFirst?_of_no_slash hslash, if_pos hrest]
      · exact .inr ⟨rest, hslash, .inr ⟨hrest, hkey⟩⟩

/-- What is shown under a name after one more stored path. -/
theorem getElem?_addEntry (t : Tree) (d key : String) (hname : '/' ∉ name.toList) :
    (t.addEntry d shown key)[name]?
      = if Below (Path.join d name) key then some .directory
        else if name ≠ "" ∧ key = Path.join d name then
          shown[name]?.or (some (t.storedKind (Path.join d name)))
        else shown[name]? := by
  by_cases hbelow : Below (Path.join d name) key
  · rw [if_pos hbelow, addEntry_of_below hname hbelow, Std.ExtTreeMap.getElem?_insert_self]
  · rw [if_neg hbelow]
    -- the path shows itself here, or another name, or nothing
    by_cases hkey : name ≠ "" ∧ key = Path.join d name
    · rw [if_pos hkey, hkey.2, addEntry_join hname hkey.1, Std.ExtTreeMap.getElem?_insertIfNew]
      by_cases hmem : name ∈ shown
      · rw [if_neg (by simp [hmem]), Std.ExtTreeMap.getElem?_eq_some_getElem hmem]
        rfl
      · rw [if_pos ⟨Std.compare_eq_iff_eq.2 rfl, hmem⟩, Std.ExtTreeMap.getElem?_eq_none hmem]
        rfl
    · rw [if_neg hkey]
      rcases addEntry_cases t d key with hsame | ⟨other, hother, hbelow' | ⟨hne, hkey'⟩⟩
      · rw [hsame]
      · have hdiffer : other ≠ name := fun heq => hbelow (heq ▸ hbelow')
        rw [addEntry_of_below hother hbelow', Std.ExtTreeMap.getElem?_insert,
          if_neg fun heq => hdiffer (Std.compare_eq_iff_eq.1 heq)]
      · have hdiffer : other ≠ name := fun heq => hkey ⟨heq ▸ hne, heq ▸ hkey'⟩
        rw [hkey', addEntry_join hother hne, Std.ExtTreeMap.getElem?_insertIfNew,
          if_neg fun heq => hdiffer (Std.compare_eq_iff_eq.1 heq.1)]

/-- No name with a slash is shown. -/
theorem getElem?_addEntry_of_slash (t : Tree) (d key : String) (hname : '/' ∈ name.toList) :
    (t.addEntry d shown key)[name]? = shown[name]? := by
  rcases addEntry_cases t d key with hsame | ⟨other, hother, hbelow | ⟨hne, hkey⟩⟩
  · rw [hsame]
  · have hdiffer : other ≠ name := fun heq => hother (heq ▸ hname)
    rw [addEntry_of_below hother hbelow, Std.ExtTreeMap.getElem?_insert,
      if_neg fun heq => hdiffer (Std.compare_eq_iff_eq.1 heq)]
  · have hdiffer : other ≠ name := fun heq => hother (heq ▸ hname)
    rw [hkey, addEntry_join hother hne, Std.ExtTreeMap.getElem?_insertIfNew,
      if_neg fun heq => hdiffer (Std.compare_eq_iff_eq.1 heq.1)]

/-- What is shown under a name after stored paths in any order. -/
theorem getElem?_foldl_addEntry (t : Tree) (d : String) (keys : List String)
    (hname : '/' ∉ name.toList) :
    (keys.foldl (t.addEntry d) shown)[name]?
      = if ∃ key ∈ keys, Below (Path.join d name) key then some .directory
        else if name ≠ "" ∧ Path.join d name ∈ keys then
          shown[name]?.or (some (t.storedKind (Path.join d name)))
        else shown[name]? := by
  induction keys generalizing shown with
  | nil => simp
  | cons key rest ih =>
    rw [List.foldl_cons, ih, getElem?_addEntry t d key hname]
    by_cases hbelow : Below (Path.join d name) key
    · simp [hbelow]
    · by_cases hkey : name ≠ "" ∧ key = Path.join d name
      · obtain ⟨hne, rfl⟩ := hkey
        simp [hbelow, hne]
      · have hstored : name ≠ "" ∧ Path.join d name ∈ key :: rest
            ↔ name ≠ "" ∧ Path.join d name ∈ rest := by
          rw [List.mem_cons, eq_comm]
          exact and_congr_right fun hne => or_iff_right fun heq => hkey ⟨hne, heq⟩
        have hgoesOn : (∃ k ∈ key :: rest, Below (Path.join d name) k)
            ↔ ∃ k ∈ rest, Below (Path.join d name) k := by
          simp [hbelow]
        rw [if_neg hbelow, if_neg hkey, if_congr hgoesOn rfl (if_congr hstored rfl rfl)]

/-- No entry has a slash in its name. -/
theorem getElem?_foldl_addEntry_of_slash (t : Tree) (d : String) (keys : List String)
    (hname : '/' ∈ name.toList) : (keys.foldl (t.addEntry d) shown)[name]? = shown[name]? := by
  induction keys generalizing shown with
  | nil => rfl
  | cons key rest ih => rw [List.foldl_cons, ih, getElem?_addEntry_of_slash t d key hname]

/-- Entries stand in the order of their names, none of which comes twice. -/
theorem pairwise_entries (t : Tree) (d : String) :
    (t.entries d).Pairwise fun a b => a.name < b.name := by
  rw [entries, List.pairwise_map]
  exact Std.ExtTreeMap.ordered_keys_toList.imp fun hlt => compare_lt_iff_lt.1 hlt

/-! ## Children -/

/-- The entries of a tree are collected as those of its files are. -/
theorem addEntry_eq_addChild (t : Tree) (d key : String) :
    t.addEntry d shown key = addChild d (t.storedKind key) shown key :=
  rfl

/-- What was shown before stays. -/
theorem mem_addEntry (t : Tree) (d key : String) (hname : '/' ∉ name.toList) (h : name ∈ shown) :
    name ∈ t.addEntry d shown key := by
  rw [Std.ExtTreeMap.mem_iff_isSome_getElem?] at h ⊢
  rw [getElem?_addEntry t d key hname]
  split_ifs
  · rfl
  · simp
  · exact h

/-- The kind of a path does not matter where its name was shown before. -/
theorem addChild_congr (kind kind' : EntryKind) (h : ∀ name, '/' ∉ name.toList → name ≠ "" →
    key = Path.join d name → name ∈ shown) :
    addChild d kind shown key = addChild d kind' shown key := by
  rw [addChild, addChild]
  cases hbelow : Path.below? d key with
  | none => rfl
  | some rest =>
    by_cases hslash : '/' ∈ rest.toList
    · obtain ⟨name, tail, rfl, hname⟩ := Path.exists_eq_append_first hslash
      simp only [Path.splitFirst?_append hname]
    by_cases hrest : rest = ""
    · simp only [Path.splitFirst?_of_no_slash hslash, if_pos hrest]
    have hmem : rest ∈ shown := h rest hslash hrest (Path.eq_join_of_below? hbelow)
    simp only [Path.splitFirst?_of_no_slash hslash, if_neg hrest]
    apply Std.ExtTreeMap.ext_getElem?
    intro name
    simp [Std.ExtTreeMap.getElem?_insertIfNew, hmem]

/-- A guest is told the kind of a path by where it is stored, files first. That is the kind which the
path shows anyway: the name of a file is taken when the recorded directories come. -/
theorem children_eq_entries (t : Tree) (d : String) : t.children d = t.entries d := by
  have hfiles : t.files.keys.foldl (addChild d .file) ∅ = t.files.keys.foldl (t.addEntry d) ∅ := by
    refine List.foldl_ext _ _ _ fun shown key hkey => ?_
    have hkind : t.storedKind key = .file :=
      if_pos (Std.ExtTreeMap.contains_iff_mem.2 (Std.ExtTreeMap.mem_keys.1 hkey))
    rw [addEntry_eq_addChild, hkind]
  -- a key that is a file and a directory was listed as a file before
  have hdirectories : ∀ (keys : List String) (shown : Std.ExtTreeMap String EntryKind compare),
      (∀ name, '/' ∉ name.toList → name ≠ "" → Path.join d name ∈ t.files → name ∈ shown) →
      keys.foldl (addChild d .directory) shown = keys.foldl (t.addEntry d) shown := by
    intro keys
    induction keys with
    | nil => exact fun shown hshown => rfl
    | cons key rest ih =>
      intro shown hshown
      have hstep : addChild d .directory shown key = t.addEntry d shown key := by
        rw [addEntry_eq_addChild]
        by_cases hkey : key ∈ t.files
        · exact addChild_congr _ _ fun name hname hne heq => hshown name hname hne (heq ▸ hkey)
        · rw [storedKind, if_neg (by rwa [Std.ExtTreeMap.contains_iff_mem])]
      rw [List.foldl_cons, List.foldl_cons, hstep]
      exact ih _ fun name hname hne hfile => mem_addEntry t d key hname (hshown name hname hne hfile)
  have hshown : ∀ name, '/' ∉ name.toList → name ≠ "" → Path.join d name ∈ t.files →
      name ∈ t.files.keys.foldl (t.addEntry d) ∅ := by
    intro name hname hne hfile
    rw [Std.ExtTreeMap.mem_iff_isSome_getElem?, getElem?_foldl_addEntry t d _ hname]
    split_ifs with hbelow hkey
    · rfl
    · simp
    · exact absurd ⟨hne, Std.ExtTreeMap.mem_keys.2 hfile⟩ hkey
  simp only [children, entries, keys, List.foldl_append, hfiles, hdirectories _ _ hshown]

/-! ## Listings of well-formed trees -/

/-- What is listed is what has been collected. -/
theorem mem_entries_iff_getElem? {kind : EntryKind} :
    ⟨name, kind⟩ ∈ t.entries d ↔ (t.keys.foldl (t.addEntry d) ∅)[name]? = some kind := by
  rw [entries, List.mem_map, ← Std.ExtTreeMap.mem_toList_iff_getElem?_eq_some]
  constructor
  · rintro ⟨⟨name', kind'⟩, hmem, heq⟩
    cases heq
    exact hmem
  · intro hmem
    exact ⟨(name, kind), hmem, rfl⟩

/-- The listing of a directory in a well-formed tree tells the kind of all that stands in it. -/
theorem WellFormed.mem_entries_iff (h : t.WellFormed) {kind : EntryKind} :
    ⟨name, kind⟩ ∈ t.entries d
      ↔ '/' ∉ name.toList ∧ name ≠ "" ∧ t.kind? (Path.join d name) = some kind := by
  rw [mem_entries_iff_getElem?]
  by_cases hname : '/' ∈ name.toList
  · rw [getElem?_foldl_addEntry_of_slash t d _ hname]
    simp [hname]
  rw [getElem?_foldl_addEntry t d _ hname]
  -- a path that goes on below the name wins over the one stored under it; a well-formed tree
  -- has no file with both
  by_cases hbelow : ∃ key ∈ t.keys, Below (Path.join d name) key
  · rw [if_pos hbelow]
    obtain ⟨key, hkey, hlies⟩ := hbelow
    rw [mem_keys] at hkey
    have hne : name ≠ "" := by
      rintro rfl
      exact Path.not_below_join_empty (h.normal_key hkey) hlies
    have hfile : Path.join d name ∉ t.files := fun hmem => h.not_below hmem hkey hlies
    rw [kind?_of_isDirectory hfile (isDirectory_of_below_key hkey hlies)]
    simp [hname, hne]
  rw [if_neg hbelow]
  by_cases hkey : name ≠ "" ∧ Path.join d name ∈ t.keys
  · rw [if_pos hkey]
    have hkind : t.kind? (Path.join d name) = some (t.storedKind (Path.join d name)) := by
      rw [storedKind]
      split
      · next hfile => exact kind?_of_mem (Std.ExtTreeMap.contains_iff_mem.1 hfile)
      · next hfile =>
        rw [Std.ExtTreeMap.contains_iff_mem] at hfile
        exact kind?_of_isDirectory hfile (isDirectory_of_mem ((mem_keys.1 hkey.2).resolve_left hfile))
    rw [hkind]
    simp [hname, hkey.1]
  · rw [if_neg hkey]
    have hnone : name ≠ "" → t.kind? (Path.join d name) = none := by
      intro hne
      have hstored : ¬ t.IsKey (Path.join d name) := fun hstored => hkey ⟨hne, mem_keys.2 hstored⟩
      rw [kind?_eq_none_iff, Bool.eq_false_iff, ne_eq, isDirectory_iff, not_or, not_or]
      refine ⟨fun hfile => hstored (.inl hfile), Path.join_ne_empty hne,
        fun hdirectory => hstored (.inr hdirectory), ?_⟩
      rintro ⟨key, hkey, hlies⟩
      exact hbelow ⟨key, mem_keys.2 hkey, hlies⟩
    simp +contextual [hnone]

/-- An entry has a name, and its kind is that of what stands there. -/
theorem WellFormed.of_mem_entries (h : t.WellFormed) {entry : DirEntry}
    (hentry : entry ∈ t.entries d) :
    Path.IsName entry.name ∧ t.kind? (Path.join d entry.name) = some entry.kind := by
  obtain ⟨hslash, hne, hkind⟩ := h.mem_entries_iff.1 hentry
  have hnormal : Path.IsNormal (Path.join d entry.name) := by
    cases hcase : entry.kind with
    | file => exact h.normal_file _ (mem_of_kind? (hcase ▸ hkind))
    | directory => exact h.normal_of_isDirectory (isDirectory_of_kind? (hcase ▸ hkind))
  exact ⟨hnormal.isName_of_join hslash hne, hkind⟩

end Sandshell.Tree
