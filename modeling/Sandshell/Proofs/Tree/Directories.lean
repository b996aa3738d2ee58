import Mathlib.Data.String.Basic
import Sandshell.Proofs.Path.Below
import Sandshell.Proofs.Tree.FileSet

/-!
# Directories of a tree

A directory exists if it is recorded or if something lies below it. In a well-formed tree no file
is a directory.
-/

namespace Sandshell

/-- Every path is normal, and no file is a directory: none is recorded as one, and nothing lies
below a file. -/
structure Tree.WellFormed (t : Tree) : Prop where
  normal_file : ∀ p ∈ t.files, Path.IsNormal p
  normal_directory : ∀ p ∈ t.directories, Path.IsNormal p
  file_not_directory : ∀ p ∈ t.files, t.isDirectory p = false

namespace Tree

open Sandshell.Path (Below isWithin IsNormal)

variable {t t' : Tree} {p q x : String} {data : Bytes}

/-- A path that is stored, be it of a file or of a directory. -/
def IsKey (t : Tree) (p : String) : Prop :=
  p ∈ t.files ∨ p ∈ t.directories

theorem mem_keys : p ∈ t.keys ↔ t.IsKey p := by
  rw [keys, List.mem_append, Std.ExtTreeMap.mem_keys, Std.ExtTreeSet.mem_toList, IsKey]

/-- Texts between a prefix and one that begins with it begin with it too. -/
theorem isPrefix_of_not_lt {pre k k' : List Char} (hpre : ¬ k < pre) (hk : ¬ k' < k)
    (hk' : pre <+: k') : pre <+: k := by
  induction pre generalizing k k' with
  | nil => exact List.nil_prefix
  | cons c pre ih =>
    obtain ⟨rest, rfl⟩ := hk'
    cases k with
    | nil => exact absurd (List.nil_lt_cons c pre) hpre
    | cons c' k =>
      rw [List.cons_lt_cons_iff, not_or, not_and] at hpre
      rw [List.cons_append, List.cons_lt_cons_iff, not_or, not_and] at hk
      obtain rfl : c = c' := le_antisymm (not_lt.1 hpre.1) (not_lt.1 hk.1)
      exact (List.prefix_cons_inj c).2 (ih (hpre.2 rfl) (hk.2 rfl) (List.prefix_append _ _))

/-- Of paths in order, the first that the look-up meets tells whether any of them lies below. -/
theorem leadsBelow_iff {keys : List String}
    (hsorted : keys.Pairwise fun a b => compare a b = .lt) :
    leadsBelow x keys ↔ ∃ p ∈ keys, Below x p := by
  have hstart : ∀ p, (compare (x ++ "/") p).isLE ↔ ¬ p.toList < (x ++ "/").toList := by
    intro p
    rw [Std.LawfulBCmp.isLE_iff_le, ← not_lt, String.lt_iff_toList_lt]
  rw [leadsBelow, Option.any_eq_true]
  constructor
  · rintro ⟨p, hp, hprefix⟩
    exact ⟨p, List.mem_of_find?_eq_some hp, List.isPrefixOf_iff_prefix.1 hprefix⟩
  · rintro ⟨p, hp, hbelow⟩
    have hmeets : ¬ p.toList < (x ++ "/").toList := by
      obtain ⟨rest, hrest⟩ := hbelow
      rw [← hrest]
      exact List.not_lt.2 (List.IsPrefix.le (List.prefix_append _ _))
    have hsome : (keys.find? fun key => (compare (x ++ "/") key).isLE).isSome :=
      List.find?_isSome.2 ⟨p, hp, (hstart p).2 hmeets⟩
    obtain ⟨first, hfirst⟩ := Option.isSome_iff_exists.1 hsome
    obtain ⟨hle, before, after, rfl, hbefore⟩ := List.find?_eq_some_iff_append.1 hfirst
    refine ⟨first, hfirst, List.isPrefixOf_iff_prefix.2 ?_⟩
    refine isPrefix_of_not_lt ((hstart first).1 hle) ?_ hbelow
    rw [← String.lt_iff_toList_lt]
    -- those before the first one stand before the start, and `p` does not
    rcases List.mem_append.1 hp with hp | hp
    · exact absurd ((hstart p).2 hmeets) (by simpa using hbefore p hp)
    · rcases List.mem_cons.1 hp with rfl | hp
      · exact lt_irrefl _
      · have hlater := (List.pairwise_append.1 hsorted).2.1
        exact lt_asymm (compare_lt_iff_lt.1 (List.rel_of_pairwise_cons hlater hp))

/-- The three ways to be a directory. -/
theorem isDirectory_iff :
    t.isDirectory x ↔ x = "" ∨ x ∈ t.directories ∨ ∃ p, t.IsKey p ∧ Below x p := by
  simp only [isDirectory, Bool.or_eq_true, decide_eq_true_eq, Std.ExtTreeSet.contains_iff_mem,
    leadsBelow_iff Std.ExtTreeMap.ordered_keys, leadsBelow_iff Std.ExtTreeSet.ordered_toList,
    Std.ExtTreeMap.mem_keys, Std.ExtTreeSet.mem_toList, IsKey, or_and_right, exists_or, or_assoc]

theorem isDirectory_root (t : Tree) : t.isDirectory "" :=
  isDirectory_iff.2 (.inl rfl)

theorem isDirectory_of_mem (h : x ∈ t.directories) : t.isDirectory x :=
  isDirectory_iff.2 (.inr (.inl h))

/-- What is above a key is a directory. -/
theorem isDirectory_of_below_key (hp : t.IsKey p) (h : Below x p) : t.isDirectory x :=
  isDirectory_iff.2 (.inr (.inr ⟨p, hp, h⟩))

/-- What a directory lies below is a directory. -/
theorem isDirectory_of_below (hp : t.isDirectory p) (h : Below x p) : t.isDirectory x := by
  rcases isDirectory_iff.1 hp with rfl | hp | ⟨q, hq, hpq⟩
  · exact absurd rfl h.ne_empty
  · exact isDirectory_of_below_key (.inr hp) h
  · exact isDirectory_of_below_key hq (h.trans hpq)

/-- With more paths there are more directories. -/
theorem isDirectory_mono (h : t.isDirectory x) (hfiles : ∀ p ∈ t.files, p ∈ t'.files)
    (hdirectories : ∀ p ∈ t.directories, p ∈ t'.directories) : t'.isDirectory x := by
  rcases isDirectory_iff.1 h with hx | hx | ⟨p, hp | hp, hxp⟩
  · exact isDirectory_iff.2 (.inl hx)
  · exact isDirectory_of_mem (hdirectories x hx)
  · exact isDirectory_of_below_key (.inl (hfiles p hp)) hxp
  · exact isDirectory_of_below_key (.inr (hdirectories p hp)) hxp

/-- A new file makes directories of what it lies below. -/
theorem isDirectory_insertFile :
    ({ t with files := t.files.insert p data } : Tree).isDirectory x
      ↔ t.isDirectory x ∨ Below x p := by
  constructor
  · intro h
    rcases isDirectory_iff.1 h with hx | hx | ⟨q, hq | hq, hxq⟩
    · exact .inl (isDirectory_iff.2 (.inl hx))
    · exact .inl (isDirectory_of_mem hx)
    · rw [Std.ExtTreeMap.mem_insert, Std.compare_eq_iff_eq] at hq
      rcases hq with rfl | hq
      · exact .inr hxq
      · exact .inl (isDirectory_of_below_key (.inl hq) hxq)
    · exact .inl (isDirectory_of_below_key (.inr hq) hxq)
  · rintro (h | h)
    · exact isDirectory_mono h (fun q hq => Std.ExtTreeMap.mem_insert.2 (.inr hq)) fun q hq => hq
    · exact isDirectory_of_below_key (.inl Std.ExtTreeMap.mem_insert_self) h

/-- A new directory makes directories of itself and of what it lies below. -/
theorem isDirectory_insertDirectory :
    ({ t with directories := t.directories.insert p } : Tree).isDirectory x
      ↔ t.isDirectory x ∨ x = p ∨ Below x p := by
  constructor
  · intro h
    rcases isDirectory_iff.1 h with hx | hx | ⟨q, hq | hq, hxq⟩
    · exact .inl (isDirectory_iff.2 (.inl hx))
    · rw [Std.ExtTreeSet.mem_insert, Std.compare_eq_iff_eq] at hx
      rcases hx with rfl | hx
      · exact .inr (.inl rfl)
      · exact .inl (isDirectory_of_mem hx)
    · exact .inl (isDirectory_of_below_key (.inl hq) hxq)
    · rw [Std.ExtTreeSet.mem_insert, Std.compare_eq_iff_eq] at hq
      rcases hq with rfl | hq
      · exact .inr (.inr hxq)
      · exact .inl (isDirectory_of_below_key (.inr hq) hxq)
  · rintro (h | rfl | h)
    · exact isDirectory_mono h (fun q hq => hq) fun q hq => Std.ExtTreeSet.mem_insert.2 (.inr hq)
    · exact isDirectory_of_mem Std.ExtTreeSet.mem_insert_self
    · exact isDirectory_of_below_key (.inr Std.ExtTreeSet.mem_insert_self) h

/-! ## Kinds -/

/-- Nothing stands where there is neither a file nor a directory. -/
theorem kind?_eq_none_iff : t.kind? p = none ↔ p ∉ t.files ∧ t.isDirectory p = false := by
  rw [kind?]
  split_ifs with hfile hdirectory
  · simp [Std.ExtTreeMap.contains_iff_mem.1 hfile]
  · simp [hdirectory]
  · simpa [hdirectory] using hfile

theorem kind?_of_mem (h : p ∈ t.files) : t.kind? p = some .file := by
  rw [kind?, if_pos (Std.ExtTreeMap.contains_iff_mem.2 h)]

/-- A file stands only where there is one. -/
theorem mem_of_kind? (h : t.kind? p = some .file) : p ∈ t.files := by
  rw [kind?] at h
  split_ifs at h with hfile hdirectory
  · exact Std.ExtTreeMap.contains_iff_mem.1 hfile
  · contradiction

theorem kind?_of_isDirectory (hfile : p ∉ t.files) (h : t.isDirectory p) :
    t.kind? p = some .directory := by
  rw [kind?, if_neg (by rwa [Std.ExtTreeMap.contains_iff_mem]), if_pos h]

/-- So it is with directories. -/
theorem isDirectory_of_kind? (h : t.kind? p = some .directory) : t.isDirectory p := by
  rw [kind?] at h
  split_ifs at h with hfile hdirectory
  · contradiction
  · assumption

/-! ## Well-formed trees -/

theorem WellFormed.normal_key (h : t.WellFormed) (hp : t.IsKey p) : IsNormal p :=
  hp.elim (h.normal_file p) (h.normal_directory p)

/-- Directories of a well-formed tree have normal paths. -/
theorem WellFormed.normal_of_isDirectory (h : t.WellFormed) (hp : t.isDirectory p) :
    IsNormal p := by
  rcases isDirectory_iff.1 hp with rfl | hmem | ⟨key, hkey, hbelow⟩
  · exact Path.isNormal_empty
  · exact h.normal_directory p hmem
  · exact hbelow.isNormal (h.normal_key hkey)

/-- No file stands at the root. -/
theorem WellFormed.ne_root (h : t.WellFormed) (hp : p ∈ t.files) : p ≠ "" := by
  rintro rfl
  have hroot := h.file_not_directory _ hp
  rw [isDirectory_root] at hroot
  contradiction

/-- Nothing lies below a file. -/
theorem WellFormed.not_below (h : t.WellFormed) (hp : p ∈ t.files) (hq : t.IsKey q) :
    ¬ Below p q := by
  intro hbelow
  have hfile := h.file_not_directory _ hp
  rw [isDirectory_of_below_key hq hbelow] at hfile
  contradiction

theorem WellFormed.files (h : t.WellFormed) : WellFormedFiles t.files where
  normal := h.normal_file
  ne_root _ hp := h.ne_root hp
  not_below _ hp _ hq := h.not_below hp (.inl hq)

/-- Well-formed files by themselves are a well-formed tree. -/
theorem wellFormed_of_files {files : FileSet} (h : WellFormedFiles files) :
    (⟨files, ∅⟩ : Tree).WellFormed where
  normal_file := h.normal
  normal_directory p hp := absurd hp Std.ExtTreeSet.not_mem_empty
  file_not_directory p hp := by
    rw [Bool.eq_false_iff]
    intro hdirectory
    rcases isDirectory_iff.1 hdirectory with rfl | hmem | ⟨q, hq | hq, hbelow⟩
    · exact h.ne_root _ hp rfl
    · exact absurd hmem Std.ExtTreeSet.not_mem_empty
    · exact h.not_below p hp q hq hbelow
    · exact absurd hq Std.ExtTreeSet.not_mem_empty

/-- Fewer paths of a well-formed tree are a well-formed tree. -/
theorem WellFormed.mono (h : t'.WellFormed) (hfiles : ∀ p ∈ t.files, p ∈ t'.files)
    (hdirectories : ∀ p ∈ t.directories, p ∈ t'.directories) : t.WellFormed where
  normal_file p hp := h.normal_file p (hfiles p hp)
  normal_directory p hp := h.normal_directory p (hdirectories p hp)
  file_not_directory p hp := by
    rw [Bool.eq_false_iff]
    intro hdirectory
    have hfile := h.file_not_directory p (hfiles p hp)
    rw [isDirectory_mono hdirectory hfiles hdirectories] at hfile
    contradiction

/-- A file may be put where no directory is and no file above. -/
theorem WellFormed.insertFile (h : t.WellFormed) (hp : IsNormal p)
    (hdirectory : t.isDirectory p = false) (hfree : ∀ q ∈ t.files, ¬ Below q p) :
    ({ t with files := t.files.insert p data } : Tree).WellFormed where
  normal_file q hq := by
    rw [Std.ExtTreeMap.mem_insert, Std.compare_eq_iff_eq] at hq
    rcases hq with rfl | hq
    · exact hp
    · exact h.normal_file q hq
  normal_directory := h.normal_directory
  file_not_directory q hq := by
    rw [Std.ExtTreeMap.mem_insert, Std.compare_eq_iff_eq] at hq
    -- no file becomes a directory: the new one has nothing below it, and lies below no other
    rw [Bool.eq_false_iff, ne_eq, isDirectory_insertFile, not_or]
    rcases hq with rfl | hq
    · exact ⟨by simp [hdirectory], Below.irrefl _⟩
    · exact ⟨by simp [h.file_not_directory q hq], hfree q hq⟩

/-- A directory may be recorded where no file is, and none above. -/
theorem WellFormed.insertDirectory (h : t.WellFormed) (hp : IsNormal p) (hfile : p ∉ t.files)
    (hfree : ∀ q ∈ t.files, ¬ Below q p) :
    ({ t with directories := t.directories.insert p } : Tree).WellFormed where
  normal_file := h.normal_file
  normal_directory q hq := by
    rw [Std.ExtTreeSet.mem_insert, Std.compare_eq_iff_eq] at hq
    rcases hq with rfl | hq
    · exact hp
    · exact h.normal_directory q hq
  file_not_directory q hq := by
    rw [Bool.eq_false_iff, ne_eq, isDirectory_insertDirectory, not_or, not_or]
    exact ⟨by simp [h.file_not_directory q hq], fun heq => hfile (heq ▸ hq), hfree q hq⟩

/-- No file of a well-formed tree stands above a path whose parent is a directory. -/
theorem WellFormed.not_below_of_parent (h : t.WellFormed) (hparent : t.isDirectory (Path.parent p))
    (hq : q ∈ t.files) : ¬ Below q p := by
  intro hbelow
  have hdirectory := h.file_not_directory q hq
  rcases hbelow.parent with heq | hbelow
  · rw [← heq, hparent] at hdirectory
    contradiction
  · rw [isDirectory_of_below hparent hbelow] at hdirectory
    contradiction

end Tree

end Sandshell
