import Sandshell.Guest.Call.Path
import Sandshell.Proofs.Guest.Descriptor
import Sandshell.Proofs.Tree.Directories

/-!
# What calls of a guest do to files

Each call changes at most one path of the tree. A changed tree is still well formed: a file is made
only where nothing stands, in a directory that is no file.
-/

namespace Sandshell

/-- A change that a call may make to the files of a guest at a path. -/
inductive Tree.Edit (path : String) (t : Tree) : Tree → Prop
  | set (hfile : path ∈ t.files) (data : Bytes) :
    Edit path t { t with files := t.files.insert path data }
  | remove (hfile : path ∈ t.files) : Edit path t { t with files := t.files.erase path }
  | create (hnone : t.kind? path = none) (hparent : t.isDirectory (Path.parent path)) :
    Edit path t { t with files := t.files.insert path [] }
  | make (hnone : t.kind? path = none) (hparent : t.isDirectory (Path.parent path)) :
    Edit path t { t with directories := t.directories.insert path }

namespace Tree

open Sandshell.Path (Below isWithin IsNormal)

variable {t t' : Tree} {p q x root : String} {data : Bytes}

theorem setFile_of_mem (h : p ∈ t.files) (data : Bytes) :
    t.setFile p data = { t with files := t.files.insert p data } := by
  rw [setFile, if_pos (Std.ExtTreeMap.contains_iff_mem.2 h)]

/-- A change at a normal path keeps a tree well formed. -/
theorem WellFormed.edit (h : t.WellFormed) (hp : IsNormal p) (hedit : Edit p t t') :
    t'.WellFormed := by
  cases hedit with
  | set hfile data =>
    exact h.insertFile hp (h.file_not_directory p hfile) fun q hq => h.not_below hq (.inl hfile)
  | remove hfile =>
    exact h.mono (fun q hq => Std.ExtTreeMap.mem_of_mem_erase hq) fun q hq => hq
  | create hnone hparent =>
    exact h.insertFile hp (kind?_eq_none_iff.1 hnone).2 fun q hq => h.not_below_of_parent hparent hq
  | make hnone hparent =>
    exact h.insertDirectory hp (kind?_eq_none_iff.1 hnone).1
      fun q hq => h.not_below_of_parent hparent hq

/-! ## What stays as it is -/

/-- The files at other paths stay as they are. -/
theorem Edit.getElem?_of_ne (h : Edit p t t') (hq : q ≠ p) : t'.files[q]? = t.files[q]? := by
  have hcompare : compare p q ≠ .eq := fun heq => hq (Std.compare_eq_iff_eq.1 heq).symm
  cases h with
  | set _ data => rw [Std.ExtTreeMap.getElem?_insert, if_neg hcompare]
  | remove _ => rw [Std.ExtTreeMap.getElem?_erase, if_neg hcompare]
  | create _ _ => rw [Std.ExtTreeMap.getElem?_insert, if_neg hcompare]
  | make _ _ => rfl

/-- An edit leaves files elsewhere. -/
theorem Edit.mem_files_of_ne (h : Edit p t t') (hq : q ≠ p) : q ∈ t'.files ↔ q ∈ t.files := by
  rw [Std.ExtTreeMap.mem_iff_isSome_getElem?, Std.ExtTreeMap.mem_iff_isSome_getElem?,
    h.getElem?_of_ne hq]

/-- At most the changed path is newly recorded as a directory, and none is forgotten. -/
theorem Edit.mem_directories_of_ne (h : Edit p t t') (hq : q ≠ p) :
    q ∈ t'.directories ↔ q ∈ t.directories := by
  cases h with
  | make _ _ =>
    rw [Std.ExtTreeSet.mem_insert, Std.compare_eq_iff_eq]
    exact or_iff_right fun heq => hq heq.symm
  | _ => exact Iff.rfl

/-- It leaves keys elsewhere too. -/
theorem Edit.isKey_of_ne (h : Edit p t t') (hq : q ≠ p) : t'.IsKey q ↔ t.IsKey q :=
  or_congr (h.mem_files_of_ne hq) (h.mem_directories_of_ne hq)

/-! ## Recording a directory with its ancestors -/

@[simp] theorem recordAlong_files (t : Tree) (here : String) (names : List String) :
    (t.recordAlong here names).files = t.files := by
  induction names generalizing t here with
  | nil => rfl
  | cons name rest ih => exact ih _ _

theorem mem_recordAlong_of_mem {here : String} {names : List String} (h : x ∈ t.directories) :
    x ∈ (t.recordAlong here names).directories := by
  induction names generalizing t here with
  | nil => exact h
  | cons name rest ih => exact ih (Std.ExtTreeSet.mem_insert.2 (.inr h))

/-- Where the way leads is recorded. -/
theorem foldl_mem_recordAlong (t : Tree) (here : String) {names : List String} (h : names ≠ []) :
    names.foldl Path.join here ∈ (t.recordAlong here names).directories := by
  induction names generalizing t here with
  | nil => contradiction
  | cons name rest ih =>
    by_cases hrest : rest = []
    · subst hrest
      exact Std.ExtTreeSet.mem_insert_self
    · exact ih _ _ hrest

/-- What is recorded on the way is where it leads, or above that. -/
theorem of_mem_recordAlong {here : String} {names : List String}
    (hnames : ∀ name ∈ names, name ≠ "") (h : x ∈ (t.recordAlong here names).directories) :
    x ∈ t.directories ∨ x = names.foldl Path.join here ∨ Below x (names.foldl Path.join here) := by
  induction names generalizing t here with
  | nil => exact .inl h
  | cons name rest ih =>
    have hjoin := Path.join_ne_empty (d := here) (hnames name List.mem_cons_self)
    rcases ih (fun n hn => hnames n (List.mem_cons_of_mem _ hn)) h with hmem | hway
    · rw [Std.ExtTreeSet.mem_insert, Std.compare_eq_iff_eq] at hmem
      rcases hmem with rfl | hmem
      · exact .inr (Path.eq_foldl_join_or_below rest hjoin)
      · exact .inl hmem
    · exact .inr hway

/-- Names are recorded one after the other. -/
theorem recordAlong_append (t : Tree) (here : String) (names rest : List String) :
    t.recordAlong here (names ++ rest)
      = (t.recordAlong here names).recordAlong (names.foldl Path.join here) rest := by
  induction names generalizing t here with
  | nil => rfl
  | cons name names ih => exact ih _ _

/-- What is recorded does not depend on the files. -/
theorem recordAlong_directories {u : Tree} (here : String) (names : List String)
    (h : t.directories = u.directories) :
    (t.recordAlong here names).directories = (u.recordAlong here names).directories := by
  induction names generalizing t u here with
  | nil => exact h
  | cons name rest ih =>
    apply ih
    rw [h]

@[simp] theorem ensureDirectory_files (t : Tree) (p : String) :
    (t.ensureDirectory p).files = t.files := by
  rw [ensureDirectory]
  split
  · rfl
  · exact recordAlong_files t "" _

/-- Where there is a directory, nothing is recorded. -/
theorem ensureDirectory_eq_self (h : t.isDirectory p) : t.ensureDirectory p = t :=
  if_pos h

/-- The parent of a path that is no directory yet is recorded as well. -/
theorem parent_mem_ensureDirectory (hp : IsNormal p) (hdirectory : t.isDirectory p = false)
    (hparent : Path.parent p ≠ "") : Path.parent p ∈ (t.ensureDirectory p).directories := by
  have hslash : '/' ∈ p.toList := by
    by_contra hslash
    exact hparent (Path.parent_of_no_slash hslash)
  obtain ⟨d, name, rfl, hname⟩ := Path.exists_eq_append_last hslash
  rw [Path.parent_append hname]
  have hd : IsNormal d := (Path.below_append d name).isNormal hp
  have hway := foldl_mem_recordAlong t "" (Path.segments_ne_nil d)
  rw [hd.foldl_join_segments] at hway
  rw [ensureDirectory, if_neg (by simp [hdirectory]), Path.segments_append, recordAlong_append]
  exact mem_recordAlong_of_mem hway

/-- Nothing but the path and what it lies below is recorded. -/
theorem of_mem_ensureDirectory (hp : IsNormal p) (h : x ∈ (t.ensureDirectory p).directories) :
    x ∈ t.directories ∨ x = p ∨ Below x p := by
  rw [ensureDirectory] at h
  split at h
  · exact .inl h
  · next hdirectory =>
    have hne : p ≠ "" := by
      rintro rfl
      exact hdirectory (isDirectory_root t)
    have hway := of_mem_recordAlong (fun name hname => (hp.isName_segments hne name hname).ne_empty) h
    rwa [hp.foldl_join_segments] at hway

/-- With no file at or above the path the tree stays well formed. -/
theorem WellFormed.ensureDirectory (h : t.WellFormed) (hp : IsNormal p) (hfile : p ∉ t.files)
    (habove : ∀ q ∈ t.files, ¬ Below q p) : (t.ensureDirectory p).WellFormed where
  normal_file q hq := h.normal_file q (ensureDirectory_files t p ▸ hq)
  normal_directory q hq := by
    rcases of_mem_ensureDirectory hp hq with hq | rfl | hq
    · exact h.normal_directory q hq
    · exact hp
    · exact hq.isNormal hp
  file_not_directory q hq := by
    rw [ensureDirectory_files] at hq
    rw [Bool.eq_false_iff]
    intro hdirectory
    have hold := h.file_not_directory q hq
    -- a directory that is new is the path itself or above it, and no file stands there
    have hnew : ∀ x, (x = p ∨ Below x p) → q ≠ x ∧ ¬ Below q x := by
      rintro x (rfl | hx)
      · exact ⟨fun heq => hfile (heq ▸ hq), habove q hq⟩
      · exact ⟨fun heq => habove q hq (heq ▸ hx), fun hbelow => habove q hq (hbelow.trans hx)⟩
    rcases isDirectory_iff.1 hdirectory with rfl | hmem | ⟨x, hx | hx, hbelow⟩
    · exact h.ne_root hq rfl
    · rcases of_mem_ensureDirectory hp hmem with hmem | hway
      · rw [isDirectory_of_mem hmem] at hold
        contradiction
      · exact (hnew q hway).1 rfl
    · rw [ensureDirectory_files] at hx
      exact h.not_below hq (.inl hx) hbelow
    · rcases of_mem_ensureDirectory hp hx with hx | hway
      · exact h.not_below hq (.inr hx) hbelow
      · exact (hnew x hway).2 hbelow

/-! ## The changes that functions make -/

theorem of_createFile (h : t.createFile p = .ok t') :
    t' = { t with files := t.files.insert p [] } := by
  rw [createFile] at h
  split_ifs at h
  exact (Except.ok.inj h).symm

/-- A file is made only in a directory. -/
theorem isDirectory_parent_of_createFile (h : t.createFile p = .ok t') :
    t.isDirectory (Path.parent p) := by
  rw [createFile] at h
  split_ifs at h with hfile hdirectory
  simpa using hdirectory

/-- Making a file where nothing stands edits this path only. -/
theorem edit_of_createFile (hnone : t.kind? p = none) (h : t.createFile p = .ok t') :
    Edit p t t' := by
  rw [of_createFile h]
  exact .create hnone (isDirectory_parent_of_createFile h)

/-- So does making a directory. -/
theorem edit_of_makeDirectory (h : t.makeDirectory p = .ok t') : Edit p t t' := by
  rw [makeDirectory] at h
  split_ifs at h with hexists hparent
  simp only [Bool.or_eq_true, not_or, Bool.not_eq_true, Option.isSome_eq_false_iff,
    Option.isNone_iff_eq_none] at hexists
  rw [← Except.ok.inj h]
  exact .make hexists.2 hparent

/-- And so does removing a file. -/
theorem edit_of_removeFile (h : t.removeFile p = .ok t') : Edit p t t' := by
  rw [removeFile] at h
  split_ifs at h with hfile
  rw [← Except.ok.inj h]
  exact .remove (Std.ExtTreeMap.contains_iff_mem.1 hfile)

end Tree

/-- Opening gives a directory, or a file at its start that may have been made or emptied. -/
theorem Guest.openEntry_cases {t t' : Tree} {path : String} {flags : Guest.OpenFlags}
    {append : Bool} {d : Descriptor} (h : openEntry t path flags append = .ok (d, t')) :
    d = .directory path path ∧ t' = t
      ∨ d = .file path 0 append
        ∧ (t' = t ∨ Tree.Edit path t t' ∧ t' = { t with files := t.files.insert path [] }) := by
  rw [openEntry] at h
  split at h
  · next kind hkind =>
    split at h
    · contradiction
    · cases kind with
      | directory =>
        dsimp only at h
        split at h
        · contradiction
        · simp only [Except.ok.injEq, Prod.mk.injEq] at h
          obtain ⟨rfl, rfl⟩ := h
          exact .inl ⟨rfl, rfl⟩
      | file =>
        dsimp only at h
        split at h
        · contradiction
        · simp only [Except.ok.injEq, Prod.mk.injEq] at h
          obtain ⟨rfl, rfl⟩ := h
          refine .inr ⟨rfl, ?_⟩
          -- truncation is the only change of a file that exists
          split
          · have hfile := Tree.mem_of_kind? hkind
            rw [Tree.setFile_of_mem hfile]
            exact .inr ⟨.set hfile [], rfl⟩
          · exact .inl rfl
  · next hnone =>
    split_ifs at h
    cases hcreate : t.createFile path with
    | error e =>
      rw [hcreate] at h
      contradiction
    | ok u =>
      rw [hcreate] at h
      simp only [bind, Except.bind, pure, Except.pure, Except.ok.injEq, Prod.mk.injEq] at h
      obtain ⟨rfl, rfl⟩ := h
      exact .inr ⟨rfl, .inr ⟨Tree.edit_of_createFile hnone hcreate, Tree.of_createFile hcreate⟩⟩

/-- Opening changes at most the opened path, and what is opened stands for it. -/
theorem Guest.edit_of_openEntry {t t' : Tree} {path : String} {flags : Guest.OpenFlags}
    {append : Bool} {d : Descriptor} (h : openEntry t path flags append = .ok (d, t')) :
    d.path = path ∧ (t' = t ∨ Tree.Edit path t t') := by
  rcases openEntry_cases h with ⟨rfl, hsame⟩ | ⟨rfl, hfiles⟩
  · exact ⟨rfl, .inl hsame⟩
  · exact ⟨rfl, hfiles.imp id And.left⟩

end Sandshell
