import Sandshell.Proofs.Tree.Directories

/-!
# Writing and deleting

A file is written where no directory stands and no file stands above. Deleting a file changes no
directory: its parent is recorded when nothing else shows it.
-/

namespace Sandshell

open Sandshell.Path (Below IsNormal)

variable {t t' : Tree} {p q x : String} {data : Bytes}

theorem normalize_of_isNormal (hp : IsNormal p) : WorkspaceError.normalize p = .ok p := by
  have hnormal : Path.normalize? p = some p := hp
  rw [WorkspaceError.normalize, hnormal]

namespace Tree

/-- Nothing blocks a path that no file is above. -/
theorem blockingFile?_eq_none (h : ∀ q ∈ t.files, ¬ Below q p) : t.blockingFile? p = none := by
  rw [blockingFile?, List.find?_eq_none]
  intro q hq hfile
  exact h q (Std.ExtTreeMap.contains_iff_mem.1 hfile) (Path.below_of_mem_ancestors hq)

/-- A file above a path blocks it. -/
theorem not_below_of_blockingFile? (h : t.blockingFile? p = none) (hq : q ∈ t.files) :
    ¬ Below q p := by
  intro hbelow
  rw [blockingFile?, List.find?_eq_none] at h
  exact h q (Path.mem_ancestors_of_below hbelow) (Std.ExtTreeMap.contains_iff_mem.2 hq)

/-- A file can be written where no directory stands and no file stands above. -/
theorem write_eq_ok (hp : IsNormal p) (hdirectory : t.isDirectory p = false)
    (hfree : ∀ q ∈ t.files, ¬ Below q p) (data : Bytes) :
    t.write p data = .ok { t with files := t.files.insert p data } := by
  rw [write, normalize_of_isNormal hp]
  show (if t.isDirectory p then _ else _) = _
  rw [hdirectory, blockingFile?_eq_none hfree]
  rfl

/-- What is written stands where no directory stood. -/
theorem of_write_eq_ok (hp : IsNormal p) (h : t.write p data = .ok t') :
    t.isDirectory p = false ∧ t' = { t with files := t.files.insert p data } := by
  rw [write, normalize_of_isNormal hp] at h
  change (if t.isDirectory p then _ else _) = _ at h
  cases hdirectory : t.isDirectory p with
  | true =>
    rw [hdirectory] at h
    contradiction
  | false =>
    rw [hdirectory] at h
    cases hblocking : t.blockingFile? p with
    | some file =>
      rw [hblocking] at h
      contradiction
    | none =>
      rw [hblocking] at h
      exact ⟨rfl, (Except.ok.inj h).symm⟩

/-- Nothing is written below a file. -/
theorem not_below_of_write_eq_ok (hp : IsNormal p) (h : t.write p data = .ok t')
    (hq : q ∈ t.files) : ¬ Below q p := by
  rw [write, normalize_of_isNormal hp] at h
  change (if t.isDirectory p then _ else _) = _ at h
  split at h
  · contradiction
  · cases hblocking : t.blockingFile? p with
    | some file =>
      rw [hblocking] at h
      contradiction
    | none => exact not_below_of_blockingFile? hblocking hq

/-- The tree without a file, its parent recorded if nothing else shows it. -/
def without (t : Tree) (p : String) : Tree :=
  let rest : Tree := { t with files := t.files.erase p }
  if rest.isDirectory (Path.parent p) then rest
  else { rest with directories := rest.directories.insert (Path.parent p) }

/-- Deleting a file takes it out. -/
theorem delete_eq_ok (hp : IsNormal p) (hfile : p ∈ t.files) : t.delete p = .ok (t.without p) := by
  rw [delete, normalize_of_isNormal hp]
  show (if !t.files.contains p && t.isDirectory p then _ else _) = _
  rw [Std.ExtTreeMap.contains_iff_mem.2 hfile, without]
  simp only [Bool.not_true, Bool.false_and, Bool.false_eq_true, if_false]
  split
  · rfl
  · rfl

@[simp] theorem without_files (t : Tree) (p : String) : (t.without p).files = t.files.erase p := by
  rw [without]
  dsimp only
  split
  · rfl
  · rfl

/-- The directory of a file that is taken out stays. -/
theorem isDirectory_parent_without (t : Tree) (p : String) :
    (t.without p).isDirectory (Path.parent p) := by
  rw [without]
  dsimp only
  split
  · assumption
  · exact isDirectory_of_mem Std.ExtTreeSet.mem_insert_self

theorem mem_without_of_mem (h : x ∈ t.directories) : x ∈ (t.without p).directories := by
  rw [without]
  dsimp only
  split
  · exact h
  · exact Std.ExtTreeSet.mem_insert.2 (.inr h)

/-- At most the parent is newly recorded. -/
theorem of_mem_without (h : x ∈ (t.without p).directories) :
    x ∈ t.directories ∨ x = Path.parent p := by
  rw [without] at h
  dsimp only at h
  split at h
  · exact .inl h
  · rw [Std.ExtTreeSet.mem_insert, Std.compare_eq_iff_eq] at h
    exact h.symm.imp id Eq.symm

/-- The parent of a stored path is a directory. -/
theorem isDirectory_parent (hp : t.IsKey p) : t.isDirectory (Path.parent p) := by
  rcases Path.no_slash_or_below_parent p with hslash | hbelow
  · rw [Path.parent_of_no_slash hslash]
    exact isDirectory_root t
  · exact isDirectory_of_below_key hp hbelow

/-- Deleting a file neither makes a directory nor removes one. -/
theorem isDirectory_without (hp : p ∈ t.files) : (t.without p).isDirectory x ↔ t.isDirectory x := by
  have hparent := isDirectory_parent (.inl hp)
  constructor
  · intro h
    rcases isDirectory_iff.1 h with rfl | hx | ⟨q, hq | hq, hbelow⟩
    · exact isDirectory_root t
    · rcases of_mem_without hx with hx | rfl
      · exact isDirectory_of_mem hx
      · exact hparent
    · rw [without_files] at hq
      exact isDirectory_of_below_key (.inl (Std.ExtTreeMap.mem_of_mem_erase hq)) hbelow
    · rcases of_mem_without hq with hq | rfl
      · exact isDirectory_of_below_key (.inr hq) hbelow
      · exact isDirectory_of_below hparent hbelow
  · intro h
    -- what was a directory only through the deleted file is at or above its recorded parent
    have hrecorded := isDirectory_parent_without t p
    rcases isDirectory_iff.1 h with rfl | hx | ⟨q, hq | hq, hbelow⟩
    · exact isDirectory_root _
    · exact isDirectory_of_mem (mem_without_of_mem hx)
    · -- the deleted file showed its parent and what is above
      by_cases heq : q = p
      · subst heq
        rcases hbelow.parent with hup | hup
        · exact hup ▸ hrecorded
        · exact isDirectory_of_below hrecorded hup
      · refine isDirectory_of_below_key (.inl ?_) hbelow
        rw [without_files, Std.ExtTreeMap.mem_erase]
        exact ⟨fun hcompare => heq (Std.compare_eq_iff_eq.1 hcompare).symm, hq⟩
    · exact isDirectory_of_below_key (.inr (mem_without_of_mem hq)) hbelow

/-- Taking out a file keeps a tree well-formed. -/
theorem WellFormed.without (h : t.WellFormed) (hp : p ∈ t.files) : (t.without p).WellFormed where
  normal_file q hq := by
    rw [without_files] at hq
    exact h.normal_file q (Std.ExtTreeMap.mem_of_mem_erase hq)
  normal_directory q hq := by
    rcases of_mem_without hq with hq | rfl
    · exact h.normal_directory q hq
    · exact h.normal_of_isDirectory (isDirectory_parent (.inl hp))
  file_not_directory q hq := by
    rw [without_files] at hq
    rw [Bool.eq_false_iff, ne_eq, isDirectory_without hp, ← ne_eq, ← Bool.eq_false_iff]
    exact h.file_not_directory q (Std.ExtTreeMap.mem_of_mem_erase hq)

end Tree

end Sandshell
