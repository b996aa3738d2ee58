import Mathlib.Algebra.Order.BigOperators.Group.List
import Sandshell.Proofs.Tree.Entries
import Sandshell.Proofs.Tree.History

/-!
# Trees with normal paths

Writes and deletions store paths in normal form only. That a tree holds no others is all that its
listings need, to show names and nothing else; so it does not matter here whether a file has come to
stand above another one.
-/

namespace Sandshell.Tree

open Sandshell.Path (Below IsName IsNormal)
open scoped Arithmetic

variable {t t' : Tree} {path p d : String} {data : Bytes}

/-- Every stored path is normal. -/
def HasNormalKeys (t : Tree) : Prop :=
  ∀ p, t.IsKey p → IsNormal p

/-- The keys of a well-formed tree are normal. -/
theorem WellFormed.hasNormalKeys (h : t.WellFormed) : t.HasNormalKeys :=
  fun _ hp => h.normal_key hp

/-- What is shown in a directory stands above a stored path, or at one. -/
theorem exists_key_of_mem_entries {entry : DirEntry} (hentry : entry ∈ t.entries d) :
    '/' ∉ entry.name.toList ∧ ∃ key ∈ t.keys,
      Below (Path.join d entry.name) key ∨ entry.name ≠ "" ∧ key = Path.join d entry.name := by
  obtain ⟨name, kind⟩ := entry
  rw [mem_entries_iff_getElem?] at hentry
  by_cases hslash : '/' ∈ name.toList
  · rw [getElem?_foldl_addEntry_of_slash t d _ hslash] at hentry
    simp at hentry
  rw [getElem?_foldl_addEntry t d _ hslash] at hentry
  split_ifs at hentry with hbelow hkey
  · obtain ⟨key, hkey, hlies⟩ := hbelow
    exact ⟨hslash, key, hkey, .inl hlies⟩
  · exact ⟨hslash, _, hkey.2, .inr ⟨hkey.1, rfl⟩⟩
  · simp at hentry

/-- No more is added to the path of a directory than the stored paths have. -/
theorem length_join_le {entry : DirEntry} (hentry : entry ∈ t.entries d) :
    (Path.join d entry.name).toList.length ≤ (t.keys.map fun key => key.toList.length).sum := by
  obtain ⟨-, key, hkey, hlies⟩ := exists_key_of_mem_entries hentry
  have hkeys : key.toList.length ≤ (t.keys.map fun key => key.toList.length).sum :=
    List.le_sum_of_mem (List.mem_map_of_mem hkey)
  rcases hlies with hbelow | ⟨-, rfl⟩
  · exact hbelow.length_lt.le.trans hkeys
  · exact hkeys

/-- The entries of a directory stand under its normal path. -/
theorem exists_normalize?_of_list {entries : List DirEntry} (hlist : t.list path = .ok entries) :
    ∃ d, Path.normalize? path = some d ∧ entries = t.entries d := by
  rw [list] at hlist
  cases hpath : Path.normalize? path with
  | none =>
    rw [normalize_eq_error hpath] at hlist
    cases hlist
  | some d =>
    rw [normalize_of_normalize? hpath] at hlist
    change (if t.files.contains d then _ else _) = _ at hlist
    split at hlist
    · cases hlist
    · change (if !t.isDirectory d then _ else _) = _ at hlist
      split at hlist
      · cases hlist
      · exact ⟨d, rfl, (Except.ok.inj hlist).symm⟩

namespace HasNormalKeys

/-- Where keys are normal, entries have proper names. -/
theorem isName_of_mem_entries (h : t.HasNormalKeys) {entry : DirEntry}
    (hentry : entry ∈ t.entries d) : IsName entry.name := by
  obtain ⟨hslash, key, hkey, hlies⟩ := exists_key_of_mem_entries hentry
  have hnormal := h key (mem_keys.1 hkey)
  rcases hlies with hbelow | ⟨hne, rfl⟩
  · have hne : entry.name ≠ "" := by
      intro hempty
      rw [hempty] at hbelow
      exact Path.not_below_join_empty hnormal hbelow
    exact (hbelow.isNormal hnormal).isName_of_join hslash hne
  · exact hnormal.isName_of_join hslash hne

theorem isName_of_list (h : t.HasNormalKeys) {listed : List DirEntry}
    (hlist : t.list path = .ok listed) : ∀ entry ∈ listed, IsName entry.name := by
  obtain ⟨d, -, rfl⟩ := exists_normalize?_of_list hlist
  exact fun entry hentry => h.isName_of_mem_entries hentry

/-- Writes leave normal keys. -/
theorem write (h : t.HasNormalKeys) (hwrite : t.write path data = .ok t') : t'.HasNormalKeys := by
  cases hnormal : Path.normalize? path with
  | none =>
    rw [Tree.write, normalize_eq_error hnormal] at hwrite
    contradiction
  | some p =>
    have hp := Path.isNormal_of_normalize? hnormal
    rw [write_of_normalize? hnormal] at hwrite
    obtain ⟨-, rfl⟩ := of_write_eq_ok hp hwrite
    rintro q (hq | hq)
    · rw [Std.ExtTreeMap.mem_insert, Std.compare_eq_iff_eq] at hq
      rcases hq with rfl | hq
      · exact hp
      · exact h q (.inl hq)
    · exact h q (.inr hq)

/-- So do deletions. -/
theorem delete (h : t.HasNormalKeys) (hdelete : t.delete path = .ok t') : t'.HasNormalKeys := by
  cases hnormal : Path.normalize? path with
  | none =>
    rw [Tree.delete, normalize_eq_error hnormal] at hdelete
    contradiction
  | some p =>
    rw [delete_eq hnormal] at hdelete
    split at hdelete
    · contradiction
    · obtain rfl := Except.ok.inj hdelete
      rintro q (hq | hq)
      · rw [without_files, Std.ExtTreeMap.mem_erase] at hq
        exact h q (.inl hq.2)
      · rcases of_mem_without hq with hq | rfl
        · exact h q (.inr hq)
        · exact (Path.isNormal_of_normalize? hnormal).parent

end HasNormalKeys

end Sandshell.Tree
