import Sandshell.Proofs.Guest.Files
import Sandshell.Proofs.Step
import Sandshell.Proofs.Tree.Entries

/-!
# Trees that agree within a directory

Two trees agree within a directory if the same is stored there and the parent of the directory
stands in both or in neither. All that calls ask about paths within the directory then has the same
answer, and changes within the directory keep the agreement.
-/

namespace Sandshell

namespace Tree

open Sandshell.Path (Below isWithin)

variable {t t' u u' : Tree} {root p q : String} {data : Bytes}

/-- The parent of a directory is the root, is recorded, or has something stored below it that is not
within the directory: it stands whatever becomes of the directory. -/
def Anchored (t : Tree) (root : String) : Prop :=
  Path.parent root = "" ∨ Path.parent root ∈ t.directories
    ∨ ∃ p, t.IsKey p ∧ ¬ isWithin root p ∧ Below (Path.parent root) p

/-- The same is stored within a directory. -/
structure SameWithin (root : String) (t u : Tree) : Prop where
  getElem?_eq : ∀ p, isWithin root p → t.files[p]? = u.files[p]?
  mem_directories : ∀ p, isWithin root p → (p ∈ t.directories ↔ p ∈ u.directories)

/-- The same is stored within a directory, and its parent is the same. -/
structure Agree (root : String) (t u : Tree) : Prop extends SameWithin root t u where
  mem_parent : Path.parent root ∈ t.files ↔ Path.parent root ∈ u.files
  anchored : t.Anchored root ↔ u.Anchored root

theorem Agree.refl (root : String) (t : Tree) : Agree root t t :=
  ⟨⟨fun _ _ => rfl, fun _ _ => Iff.rfl⟩, Iff.rfl, Iff.rfl⟩

/-! ## The same answers -/

namespace SameWithin

theorem symm (h : SameWithin root t u) : SameWithin root u t where
  getElem?_eq p hp := (h.getElem?_eq p hp).symm
  mem_directories p hp := (h.mem_directories p hp).symm

/-- Trees that are the same within a directory have the same files there. -/
theorem mem (h : SameWithin root t u) (hp : isWithin root p) : p ∈ t.files ↔ p ∈ u.files := by
  rw [Std.ExtTreeMap.mem_iff_isSome_getElem?, Std.ExtTreeMap.mem_iff_isSome_getElem?,
    h.getElem?_eq p hp]

theorem contains (h : SameWithin root t u) (hp : isWithin root p) :
    t.files.contains p = u.files.contains p := by
  rw [Bool.eq_iff_iff, Std.ExtTreeMap.contains_iff_mem, Std.ExtTreeMap.contains_iff_mem, h.mem hp]

/-- They have the same keys there. -/
theorem isKey (h : SameWithin root t u) (hp : isWithin root p) : t.IsKey p ↔ u.IsKey p :=
  or_congr (h.mem hp) (h.mem_directories p hp)

/-- A directory in one of them is a directory in the other. -/
theorem isDirectory_of_isDirectory (h : SameWithin root t u) (hp : isWithin root p)
    (hdirectory : t.isDirectory p) : u.isDirectory p := by
  rcases isDirectory_iff.1 hdirectory with hroot | hmem | ⟨q, hq, hbelow⟩
  · exact isDirectory_iff.2 (.inl hroot)
  · exact isDirectory_of_mem ((h.mem_directories p hp).1 hmem)
  · exact isDirectory_of_below_key ((h.isKey (Path.isWithin_of_below hp hbelow)).1 hq) hbelow

theorem isDirectory (h : SameWithin root t u) (hp : isWithin root p) :
    t.isDirectory p = u.isDirectory p :=
  Bool.eq_iff_iff.2 ⟨h.isDirectory_of_isDirectory hp, h.symm.isDirectory_of_isDirectory hp⟩

/-- The same things stand at their paths. -/
theorem kind? (h : SameWithin root t u) (hp : isWithin root p) : t.kind? p = u.kind? p := by
  rw [Tree.kind?, Tree.kind?, h.contains hp, h.isDirectory hp]

/-- Their files are as long. -/
theorem fileSize (h : SameWithin root t u) (hp : isWithin root p) : t.fileSize p = u.fileSize p := by
  rw [Tree.fileSize, Tree.fileSize, Std.ExtTreeMap.getD_eq_getD_getElem?,
    Std.ExtTreeMap.getD_eq_getD_getElem?, h.getElem?_eq p hp]

theorem storedKind (h : SameWithin root t u) (hp : isWithin root p) :
    t.storedKind p = u.storedKind p := by
  rw [Tree.storedKind, Tree.storedKind, h.contains hp]

/-- Directories within have the same entries. -/
theorem entries (h : SameWithin root t u) {d : String} (hd : isWithin root d) :
    t.entries d = u.entries d := by
  have hshown : t.keys.foldl (t.addEntry d) ∅ = u.keys.foldl (u.addEntry d) ∅ := by
    apply Std.ExtTreeMap.ext_getElem?
    intro name
    by_cases hname : '/' ∈ name.toList
    · rw [getElem?_foldl_addEntry_of_slash t d _ hname, getElem?_foldl_addEntry_of_slash u d _ hname]
    · have hjoin := Path.isWithin_join hd name
      have hgoesOn : (∃ key ∈ t.keys, Below (Path.join d name) key)
          ↔ ∃ key ∈ u.keys, Below (Path.join d name) key := by
        simp only [mem_keys]
        refine exists_congr fun key => and_congr_left fun hbelow => ?_
        exact h.isKey (Path.isWithin_of_below hjoin hbelow)
      have hstored : name ≠ "" ∧ Path.join d name ∈ t.keys
          ↔ name ≠ "" ∧ Path.join d name ∈ u.keys := by
        rw [mem_keys, mem_keys, h.isKey hjoin]
      rw [getElem?_foldl_addEntry t d _ hname, getElem?_foldl_addEntry u d _ hname,
        h.storedKind hjoin, if_congr hgoesOn rfl (if_congr hstored rfl rfl)]
  rw [Tree.entries, Tree.entries, hshown]

end SameWithin

namespace Agree

/-! ## Going up -/

/-- The parent of the root is a directory because of what is beside the root, or within. -/
theorem isDirectory_parent_root_iff : t.isDirectory (Path.parent root)
    ↔ t.Anchored root ∨ ∃ p, t.IsKey p ∧ isWithin root p ∧ Below (Path.parent root) p := by
  rw [isDirectory_iff, Anchored, or_assoc, or_assoc]
  refine or_congr_right (or_congr_right ?_)
  rw [← exists_or]
  refine exists_congr fun p => ?_
  by_cases hp : isWithin root p <;> simp [hp]

/-- Trees that agree do so about the parent of the root. -/
theorem isDirectory_parent_root (h : Agree root t u) :
    t.isDirectory (Path.parent root) = u.isDirectory (Path.parent root) := by
  rw [Bool.eq_iff_iff, isDirectory_parent_root_iff, isDirectory_parent_root_iff, h.anchored]
  refine or_congr_right (exists_congr fun p => ?_)
  rw [← and_assoc, ← and_assoc, and_congr_left_iff.2 fun hp => h.isKey hp]

/-- The parent of a path within is the same in both, also that of the directory itself. -/
theorem isDirectory_parent (h : Agree root t u) (hp : isWithin root p) :
    t.isDirectory (Path.parent p) = u.isDirectory (Path.parent p) := by
  by_cases hroot : p = root
  · rw [hroot, h.isDirectory_parent_root]
  · exact h.isDirectory (Path.isWithin_parent hp hroot)

/-- They agree about parents within the root. -/
theorem contains_parent (h : Agree root t u) (hp : isWithin root p) :
    t.files.contains (Path.parent p) = u.files.contains (Path.parent p) := by
  by_cases hroot : p = root
  · rw [Bool.eq_iff_iff, Std.ExtTreeMap.contains_iff_mem, Std.ExtTreeMap.contains_iff_mem, hroot,
      h.mem_parent]
  · exact h.contains (Path.isWithin_parent hp hroot)

/-! ## The same changes -/

/-- A change within a directory leaves alone what holds up its parent. -/
theorem anchored_edit (hp : isWithin root p) (h : Edit p t t') :
    t'.Anchored root ↔ t.Anchored root := by
  by_cases hroot : root = ""
  · have hparent : Path.parent root = "" := by
      rw [hroot]
      rfl
    exact iff_of_true (.inl hparent) (.inl hparent)
  -- the change is within the directory, its parent and the paths that anchor it are not
  · have hne : Path.parent root ≠ p := fun heq => Path.not_isWithin_parent hroot (heq ▸ hp)
    refine or_congr_right (or_congr (h.mem_directories_of_ne hne) (exists_congr fun q => ?_))
    refine and_congr_left fun hq => h.isKey_of_ne ?_
    rintro rfl
    exact hq.1 hp

/-- Trees still agree after changes at a path within that leave the same there. -/
theorem edit (h : Agree root t u) (hp : isWithin root p) (ht : Edit p t t') (hu : Edit p u u')
    (hfile : t'.files[p]? = u'.files[p]?) (hdirectory : p ∈ t'.directories ↔ p ∈ u'.directories) :
    Agree root t' u' where
  getElem?_eq q hq := by
    by_cases hqp : q = p
    · rw [hqp, hfile]
    · rw [ht.getElem?_of_ne hqp, hu.getElem?_of_ne hqp, h.getElem?_eq q hq]
  mem_directories q hq := by
    by_cases hqp : q = p
    · rw [hqp, hdirectory]
    · rw [ht.mem_directories_of_ne hqp, hu.mem_directories_of_ne hqp, h.mem_directories q hq]
  mem_parent := by
    by_cases hparent : Path.parent root = p
    · rw [hparent, Std.ExtTreeMap.mem_iff_isSome_getElem?, Std.ExtTreeMap.mem_iff_isSome_getElem?,
        hfile]
    · rw [ht.mem_files_of_ne hparent, hu.mem_files_of_ne hparent, h.mem_parent]
  anchored := by rw [anchored_edit hp ht, anchored_edit hp hu, h.anchored]

/-- Setting a file in both keeps them in agreement. -/
theorem set (h : Agree root t u) (hp : isWithin root p) (hfile : p ∈ t.files) (data : Bytes) :
    Agree root { t with files := t.files.insert p data }
      { u with files := u.files.insert p data } := by
  refine h.edit hp (.set hfile data) (.set ((h.mem hp).1 hfile) data) ?_ (h.mem_directories p hp)
  rw [Std.ExtTreeMap.getElem?_insert_self, Std.ExtTreeMap.getElem?_insert_self]

theorem setFile (h : Agree root t u) (hp : isWithin root p) (hfile : p ∈ t.files) (data : Bytes) :
    Agree root (t.setFile p data) (u.setFile p data) := by
  rw [setFile_of_mem hfile, setFile_of_mem ((h.mem hp).1 hfile)]
  exact h.set hp hfile data

/-- Making a file does too, or fails in both. -/
theorem createFile (h : Agree root t u) (hp : isWithin root p) (hnone : t.kind? p = none) :
    SameOutcome (Agree root) (t.createFile p) (u.createFile p) := by
  rw [Tree.createFile, Tree.createFile, h.contains_parent hp, h.isDirectory_parent hp]
  split
  · exact .error _
  · split
    · exact .error _
    · next hparent =>
      rw [Bool.not_eq_true', Bool.not_eq_false] at hparent
      refine .ok (h.edit hp (.create hnone ?_) (.create ?_ hparent) ?_ (h.mem_directories p hp))
      · rw [h.isDirectory_parent hp, hparent]
      · rw [← h.kind? hp, hnone]
      · rw [Std.ExtTreeMap.getElem?_insert_self, Std.ExtTreeMap.getElem?_insert_self]

/-- So does making a directory. -/
theorem makeDirectory (h : Agree root t u) (hp : isWithin root p) :
    SameOutcome (Agree root) (t.makeDirectory p) (u.makeDirectory p) := by
  rw [Tree.makeDirectory, Tree.makeDirectory, h.kind? hp, h.contains_parent hp,
    h.isDirectory_parent hp]
  split
  · exact .error _
  · next hexists =>
    split
    · next hparent =>
      simp only [Bool.or_eq_true, not_or, Bool.not_eq_true, Option.isSome_eq_false_iff,
        Option.isNone_iff_eq_none] at hexists
      refine .ok (h.edit hp (.make ?_ ?_) (.make hexists.2 hparent) (h.getElem?_eq p hp) ?_)
      · rw [h.kind? hp, hexists.2]
      · rw [h.isDirectory_parent hp, hparent]
      · exact iff_of_true Std.ExtTreeSet.mem_insert_self Std.ExtTreeSet.mem_insert_self
    · exact .error _

/-- And removing a file. -/
theorem removeFile (h : Agree root t u) (hp : isWithin root p) :
    SameOutcome (Agree root) (t.removeFile p) (u.removeFile p) := by
  rw [Tree.removeFile, Tree.removeFile, h.contains hp, h.isDirectory hp]
  split
  · next hfile =>
    rw [Std.ExtTreeMap.contains_iff_mem] at hfile
    refine .ok (h.edit hp (.remove ((h.mem hp).2 hfile)) (.remove hfile) ?_ (h.mem_directories p hp))
    rw [Std.ExtTreeMap.getElem?_erase_self, Std.ExtTreeMap.getElem?_erase_self]
  · exact .error _

/-- Opening a path within gives the same descriptor, and trees that agree. -/
theorem openEntry (h : Agree root t u) (hp : isWithin root p) (flags : Guest.OpenFlags)
    (append : Bool) :
    SameOutcome (fun a b => a.1 = b.1 ∧ Agree root a.2 b.2)
      (Guest.openEntry t p flags append) (Guest.openEntry u p flags append) := by
  rw [Guest.openEntry, Guest.openEntry, ← h.kind? hp]
  cases hkind : t.kind? p with
  | none =>
    dsimp only
    split
    · exact .error _
    · split
      · exact .error _
      -- what is made in both is made alike, since nothing stands there in either
      · have hcreate := h.createFile hp hkind
        generalize t.createFile p = r, u.createFile p = r' at hcreate ⊢
        cases hcreate with
        | error e => exact .error _
        | ok hagree => exact .ok ⟨rfl, hagree⟩
  | some kind =>
    dsimp only
    split
    · exact .error _
    · cases kind with
      | directory =>
        dsimp only
        split
        · exact .error _
        · exact .ok ⟨rfl, h⟩
      | file =>
        dsimp only
        split
        · exact .error _
        · refine .ok ⟨rfl, ?_⟩
          dsimp only
          split
          · exact h.setFile hp (mem_of_kind? hkind) []
          · exact h

end Agree

end Tree

end Sandshell
