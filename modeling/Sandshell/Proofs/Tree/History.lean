import Sandshell.Proofs.Tree.Update

/-!
# Histories of a tree

Calls can be made on a tree in any order and with any paths. All but one kind leave a well-formed
tree well formed: deleting a path below a file records a directory at the file or below it. So the
trees of a history are well formed exactly if no call of it deletes below a file.
-/

namespace Sandshell

open Sandshell.Path (Below IsNormal)

/-- A call on a tree. -/
inductive Tree.Call where
  | read (path : String)
  | write (path : String) (data : Bytes)
  | delete (path : String)
  | createDir (path : String)
  | stat (path : String)
  | list (path : String)
deriving DecidableEq, Repr, Inhabited

namespace Tree

variable {t t' : Tree} {path p : String} {data : Bytes}

/-- The tree that a call leaves, whether or not it fails. -/
def after (t : Tree) : Call → Tree
  | .read path => (Workspace.read path t).2
  | .write path data => (Workspace.write path data t).2
  | .delete path => (Workspace.delete path t).2
  | .createDir path => (change (·.createDir path) t).2
  | .stat path => (Workspace.stat path t).2
  | .list path => (Workspace.list path t).2

/-- The tree that calls leave, made one after the other. -/
def afterAll (t : Tree) (calls : List Call) : Tree :=
  calls.foldl after t

/-- The call deletes a path that lies below a file. -/
def Call.DeletesBelowFile (t : Tree) : Call → Prop
  | .delete path => ∃ p, Path.normalize? path = some p ∧ ∃ file ∈ t.files, Below file p
  | _ => False

/-! ## Changes under the normal form of a path -/

theorem normalize_of_normalize? (h : Path.normalize? path = some p) :
    WorkspaceError.normalize path = .ok p := by
  rw [WorkspaceError.normalize, h]

theorem normalize_eq_error (h : Path.normalize? path = none) :
    WorkspaceError.normalize path = .error (.invalidPath path) := by
  rw [WorkspaceError.normalize, h]

/-- A write to a path is one to its normal form. -/
theorem write_of_normalize? (h : Path.normalize? path = some p) :
    t.write path data = t.write p data := by
  rw [write, write, normalize_of_normalize? h,
    normalize_of_isNormal (Path.isNormal_of_normalize? h)]

/-- A refused change leaves the tree. -/
theorem change_of_error (update : Tree → Except WorkspaceError Tree) {e : WorkspaceError}
    (h : update t = .error e) : (change update t).2 = t := by
  rw [change, h]

theorem change_of_ok (update : Tree → Except WorkspaceError Tree) (h : update t = .ok t') :
    (change update t).2 = t' := by
  rw [change, h]

/-- A change that keeps the tree well formed where it succeeds keeps it so. -/
theorem WellFormed.change {update : Tree → Except WorkspaceError Tree} (h : t.WellFormed)
    (hupdate : ∀ t', update t = .ok t' → t'.WellFormed) : (Tree.change update t).2.WellFormed := by
  cases hresult : update t with
  | error e =>
    rw [change_of_error update hresult]
    exact h
  | ok t' =>
    rw [change_of_ok update hresult]
    exact hupdate t' hresult

/-! ## One call -/

/-- Writes keep a tree well-formed. -/
theorem WellFormed.write (h : t.WellFormed) (hwrite : t.write path data = .ok t') :
    t'.WellFormed := by
  cases hnormal : Path.normalize? path with
  | none =>
    rw [Tree.write, normalize_eq_error hnormal] at hwrite
    contradiction
  | some p =>
    have hp := Path.isNormal_of_normalize? hnormal
    rw [write_of_normalize? hnormal] at hwrite
    obtain ⟨hdirectory, rfl⟩ := of_write_eq_ok hp hwrite
    exact h.insertFile hp hdirectory fun q hq => not_below_of_write_eq_ok hp hwrite hq

/-- A directory is recorded where no file stands and no file stands above. -/
theorem of_createDir_eq_ok (hnormal : Path.normalize? path = some p)
    (h : t.createDir path = .ok t') : p ∉ t.files ∧ (∀ q ∈ t.files, ¬ Below q p)
      ∧ t' = { t with directories := t.directories.insert p } := by
  rw [createDir, normalize_of_normalize? hnormal] at h
  change (if t.files.contains p then _ else _) = _ at h
  split at h
  · contradiction
  · next hfile =>
    cases hblocking : t.blockingFile? p with
    | some file =>
      rw [hblocking] at h
      contradiction
    | none =>
      rw [hblocking] at h
      refine ⟨?_, fun q hq => not_below_of_blockingFile? hblocking hq, (Except.ok.inj h).symm⟩
      rwa [Std.ExtTreeMap.contains_iff_mem] at hfile

/-- So do new directories. -/
theorem WellFormed.createDir (h : t.WellFormed) (hcreate : t.createDir path = .ok t') :
    t'.WellFormed := by
  cases hnormal : Path.normalize? path with
  | none =>
    rw [Tree.createDir, normalize_eq_error hnormal] at hcreate
    contradiction
  | some p =>
    obtain ⟨hfile, hfree, rfl⟩ := of_createDir_eq_ok hnormal hcreate
    exact h.insertDirectory (Path.isNormal_of_normalize? hnormal) hfile hfree

/-- Deleting fails at a directory, and otherwise leaves the tree without the path, whether or not a
file stood there. -/
theorem delete_eq (hnormal : Path.normalize? path = some p) :
    t.delete path =
      if p ∉ t.files ∧ t.isDirectory p then .error (.isADirectory p) else .ok (t.without p) := by
  have hcontains : (!t.files.contains p) = decide (p ∉ t.files) := by
    rw [Bool.eq_iff_iff, Bool.not_eq_true', Bool.eq_false_iff, ne_eq, decide_eq_true_eq,
      Std.ExtTreeMap.contains_iff_mem]
  rw [delete, normalize_of_normalize? hnormal]
  show (if !t.files.contains p && t.isDirectory p then _ else _) = _
  simp only [hcontains, Bool.and_eq_true, decide_eq_true_eq]
  split
  · rfl
  · rw [without]
    dsimp only
    split
    · rfl
    · rfl

/-- Without a path that holds no file the tree is the same, but for the parent that is recorded. -/
theorem without_of_not_mem (hp : p ∉ t.files) :
    t.without p = if t.isDirectory (Path.parent p) then t
      else { t with directories := t.directories.insert (Path.parent p) } := by
  have herase : ({ t with files := t.files.erase p } : Tree) = t := by
    have hfiles : t.files.erase p = t.files := by
      apply Std.ExtTreeMap.ext_getElem?
      intro q
      rw [Std.ExtTreeMap.getElem?_erase]
      split
      · next heq =>
        rw [Std.compare_eq_iff_eq] at heq
        rw [← heq, Std.ExtTreeMap.getElem?_eq_none hp]
      · rfl
    rw [hfiles]
  rw [without, herase]

/-- The parent of a path that lies below no file can be recorded. -/
theorem WellFormed.without_of_free (h : t.WellFormed) (hp : IsNormal p)
    (hfree : ∀ q ∈ t.files, ¬ Below q p) : (t.without p).WellFormed := by
  by_cases hmem : p ∈ t.files
  · exact h.without hmem
  rw [without_of_not_mem hmem]
  split
  · exact h
  · next hparent =>
    -- a parent that is not the root lies above the path
    have hbelow : Below (Path.parent p) p := by
      rcases Path.no_slash_or_below_parent p with hslash | hbelow
      · rw [Path.parent_of_no_slash hslash, isDirectory_root] at hparent
        contradiction
      · exact hbelow
    exact h.insertDirectory (hbelow.isNormal hp) (fun hfile => hfree _ hfile hbelow)
      fun q hq hq' => hfree q hq (hq'.trans hbelow)

/-- Where a path lies below a file, its parent is the file or lies below it too, and is recorded as
a directory. -/
theorem not_wellFormed_without {file : String} (hfile : file ∈ t.files) (hbelow : Below file p)
    (hp : p ∉ t.files) : ¬ (t.without p).WellFormed := by
  intro hwithout
  have hkept : file ∈ (t.without p).files := by
    rw [without_of_not_mem hp]
    split
    · exact hfile
    · exact hfile
  have hdirectory : (t.without p).isDirectory file := by
    have hparent := isDirectory_parent_without t p
    rcases hbelow.parent with heq | hbelow
    · exact heq ▸ hparent
    · exact isDirectory_of_below hparent hbelow
  rw [hwithout.file_not_directory file hkept] at hdirectory
  contradiction

/-- A delete keeps a tree well formed exactly if it is not below a file. -/
theorem wellFormed_delete_iff (h : t.WellFormed) :
    (change (·.delete path) t).2.WellFormed ↔ ¬ (Call.delete path).DeletesBelowFile t := by
  cases hnormal : Path.normalize? path with
  | none =>
    have hfails : t.delete path = .error (.invalidPath path) := by
      rw [delete, normalize_eq_error hnormal]
      rfl
    rw [change_of_error (·.delete path) hfails]
    refine iff_of_true h ?_
    rintro ⟨p, hp, -⟩
    rw [hnormal] at hp
    contradiction
  | some p =>
    have hp := Path.isNormal_of_normalize? hnormal
    have hdelete := delete_eq (t := t) hnormal
    have hiff : (Call.delete path).DeletesBelowFile t ↔ ∃ file ∈ t.files, Below file p := by
      simp only [Call.DeletesBelowFile, hnormal, Option.some.injEq, exists_eq_left']
    rw [hiff]
    split at hdelete
    · next hdirectory =>
      rw [change_of_error (·.delete path) hdelete]
      refine iff_of_true h ?_
      -- a directory does not lie below a file
      rintro ⟨file, hfile, hbelow⟩
      have hnone := h.file_not_directory file hfile
      rw [isDirectory_of_below hdirectory.2 hbelow] at hnone
      contradiction
    · rw [change_of_ok (·.delete path) hdelete]
      constructor
      · rintro hwithout ⟨file, hfile, hbelow⟩
        have hmem : p ∉ t.files := fun hmem => h.not_below hfile (.inl hmem) hbelow
        exact not_wellFormed_without hfile hbelow hmem hwithout
      · intro hnone
        exact h.without_of_free hp fun q hq hbelow => hnone ⟨q, hq, hbelow⟩

/-- One call keeps a tree well formed unless it deletes below a file. -/
theorem wellFormed_after_iff (h : t.WellFormed) (call : Call) :
    (t.after call).WellFormed ↔ ¬ call.DeletesBelowFile t := by
  cases call with
  | read path => exact iff_of_true h id
  | write path data => exact iff_of_true (h.change fun _ => h.write) id
  | delete path => exact wellFormed_delete_iff h
  | createDir path => exact iff_of_true (h.change fun _ => h.createDir) id
  | stat path => exact iff_of_true h id
  | list path => exact iff_of_true h id

/-! ## All calls -/

theorem wellFormed_empty : empty.WellFormed where
  normal_file _ hp := absurd hp Std.ExtTreeMap.not_mem_empty
  normal_directory _ hp := absurd hp Std.ExtTreeSet.not_mem_empty
  file_not_directory _ hp := absurd hp Std.ExtTreeMap.not_mem_empty

/-- One more call of a run is one call after those before it. -/
theorem afterAll_take_succ (t : Tree) {calls : List Call} {n : Nat} {call : Call}
    (h : calls[n]? = some call) :
    t.afterAll (calls.take (n + 1)) = (t.afterAll (calls.take n)).after call := by
  rw [afterAll, afterAll, List.take_add_one, h, List.foldl_append]
  rfl

/-- All trees of a history that begins with the empty tree are well formed exactly if none of its
calls deletes below a file. -/
theorem wellFormed_throughout_iff (calls : List Call) :
    (∀ n, (empty.afterAll (calls.take n)).WellFormed)
      ↔ ∀ n (call : Call), calls[n]? = some call →
        ¬ call.DeletesBelowFile (empty.afterAll (calls.take n)) := by
  constructor
  · intro h n call hcall
    rw [← wellFormed_after_iff (h n), ← afterAll_take_succ empty hcall]
    exact h (n + 1)
  · intro h n
    induction n with
    | zero => exact wellFormed_empty
    | succ n ih =>
      cases hcall : calls[n]? with
      | none =>
        rw [List.take_add_one, hcall, Option.toList_none, List.append_nil]
        exact ih
      | some call =>
        rw [afterAll_take_succ empty hcall, wellFormed_after_iff ih]
        exact h n call hcall

/-- Deleting `f/x`, where `f` is a file, records `f` as a directory. -/
theorem not_forall_wellFormed_afterAll : ¬ ∀ calls : List Call, (empty.afterAll calls).WellFormed := by
  intro hall
  have h := hall [.write "f" [], .delete "f/x"]
  have hfile : "f" ∈ (empty.afterAll [.write "f" [], .delete "f/x"]).files := by
    rw [← Std.ExtTreeMap.contains_iff_mem]
    decide +kernel
  have hdirectory : (empty.afterAll [.write "f" [], .delete "f/x"]).isDirectory "f" = true := by
    decide +kernel
  rw [h.file_not_directory "f" hfile] at hdirectory
  contradiction

end Tree

end Sandshell
