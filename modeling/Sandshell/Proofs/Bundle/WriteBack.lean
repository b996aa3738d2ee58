import Sandshell.Bundle.Snapshot
import Sandshell.Proofs.Step
import Sandshell.Proofs.Tree.Update

/-!
# Writing back

The deletions of a write-back succeed and leave every directory standing, emptied ones included. The
writes after them succeed if no file is written where a directory stands.
-/

namespace Sandshell.Snapshot

open Sandshell.Path (Below IsNormal)

variable {t t' : Tree} {after : FileSet} {gone : List String} {writes : List (String × Bytes)}
variable {counts : Nat × Nat}

/-- A call that deletes a file of the tree takes out that file. -/
theorem delete_apply {p : String} (hp : IsNormal p) (hfile : p ∈ t.files) :
    (Workspace.delete p : WorkspaceM Tree Unit) t = (.ok (), t.without p) := by
  show Tree.change (fun t => t.delete p) t = _
  rw [Tree.change, Tree.delete_eq_ok hp hfile]

/-- By induction on the deletions, each of which leaves a well-formed tree with the same
directories. -/
theorem deleteAll_apply (h : t.WellFormed) (hgone : ∀ p ∈ gone, p ∈ t.files)
    (hnodup : gone.Nodup) :
    ∃ t', (deleteAll gone : WorkspaceM Tree Unit) t = (.ok (), t') ∧ t'.WellFormed
      ∧ (∀ x, t'.isDirectory x ↔ t.isDirectory x)
      ∧ ∀ p, t'.files[p]? = if p ∈ gone then none else t.files[p]? := by
  induction gone generalizing t with
  | nil => exact ⟨t, rfl, h, fun x => Iff.rfl, fun p => by simp⟩
  | cons p rest ih =>
    obtain ⟨hfirst, hrest⟩ := List.nodup_cons.1 hnodup
    have hp := hgone p List.mem_cons_self
    -- no path is deleted twice
    have hkept : ∀ q ∈ rest, q ∈ (t.without p).files := by
      intro q hq
      rw [Tree.without_files, Std.ExtTreeMap.mem_erase]
      refine ⟨fun hcompare => ?_, hgone q (List.mem_cons_of_mem _ hq)⟩
      rw [Std.compare_eq_iff_eq.1 hcompare] at hfirst
      exact hfirst hq
    obtain ⟨t', hrun, hwf, hdirectory, hfiles⟩ := ih (h.without hp) hkept hrest
    refine ⟨t', ?_, hwf, fun x => (hdirectory x).trans (Tree.isDirectory_without hp), fun q => ?_⟩
    · rw [deleteAll, bind_apply_ok (delete_apply (h.normal_file p hp) hp), hrun]
    · rw [hfiles, Tree.without_files, Std.ExtTreeMap.getElem?_erase]
      by_cases hq : q = p
      · simp [hq]
      · simp [hq, Ne.symm hq]

theorem write_apply {p : String} {data : Bytes} (h : t.write p data = .ok t') :
    (Workspace.write p data : WorkspaceM Tree Unit) t = (.ok (), t') := by
  show Tree.change (fun t => t.write p data) t = _
  rw [Tree.change, h]

/-- Files of a well-formed set can be written to a tree that holds no others, one after the other,
where no directories stand: none of them makes a directory of another one. -/
theorem writeAll_apply (hafter : WellFormedFiles after) (hwrites : ∀ e ∈ writes, e.1 ∈ after)
    (hfiles : ∀ p ∈ t.files, p ∈ after) (hfree : ∀ e ∈ writes, t.isDirectory e.1 = false) :
    ∃ t', (writeAll writes : WorkspaceM Tree Unit) t = (.ok (), t') := by
  induction writes generalizing t with
  | nil => exact ⟨t, rfl⟩
  | cons e rest ih =>
    obtain ⟨p, data⟩ := e
    have hp : p ∈ after := hwrites (p, data) List.mem_cons_self
    have hwrite := Tree.write_eq_ok (hafter.normal p hp) (hfree (p, data) List.mem_cons_self)
      (fun q hq => hafter.not_below q (hfiles q hq) p hp) data
    rw [writeAll, bind_apply_ok (write_apply hwrite)]
    apply ih
    -- what was written lies in the set too, and makes directories only of what is above it
    · exact fun e he => hwrites e (List.mem_cons_of_mem _ he)
    · intro q hq
      rw [Std.ExtTreeMap.mem_insert, Std.compare_eq_iff_eq] at hq
      rcases hq with rfl | hq
      · exact hp
      · exact hfiles q hq
    · intro e he
      rw [Bool.eq_false_iff, ne_eq, Tree.isDirectory_insertFile, not_or]
      have hstill := hfree e (List.mem_cons_of_mem _ he)
      exact ⟨by simp [hstill], hafter.not_below e.1 (hwrites e (List.mem_cons_of_mem _ he)) p hp⟩

/-- Writes that succeed insert their files, and none where a directory stood before. -/
theorem of_writeAll_apply (hnormal : ∀ e ∈ writes, IsNormal e.1)
    (h : (writeAll writes : WorkspaceM Tree Unit) t = (.ok (), t')) :
    t'.files = writes.foldl (fun (m : FileSet) (path, data) => m.insert path data) t.files
      ∧ ∀ e ∈ writes, t.isDirectory e.1 = false := by
  induction writes generalizing t with
  | nil =>
    obtain ⟨-, rfl⟩ := Prod.mk.inj h
    exact ⟨rfl, by simp⟩
  | cons e rest ih =>
    obtain ⟨p, data⟩ := e
    rw [writeAll] at h
    cases hwrite : t.write p data with
    | error err =>
      have hfailed : (Workspace.write p data : WorkspaceM Tree Unit) t = (.error err, t) := by
        show Tree.change (fun t => t.write p data) t = _
        rw [Tree.change, hwrite]
      rw [bind_apply_error hfailed] at h
      cases h
    | ok next =>
      rw [bind_apply_ok (write_apply hwrite)] at h
      obtain ⟨hdirectory, rfl⟩ := Tree.of_write_eq_ok (hnormal (p, data) List.mem_cons_self) hwrite
      obtain ⟨hfiles, hrest⟩ := ih (fun e he => hnormal e (List.mem_cons_of_mem _ he)) h
      refine ⟨hfiles, fun e he => ?_⟩
      rcases List.mem_cons.1 he with rfl | he
      · exact hdirectory
      -- writing only adds directories, so what is none afterwards was none before
      · have hstill := hrest e he
        rw [Bool.eq_false_iff, ne_eq, Tree.isDirectory_insertFile, not_or] at hstill
        exact Bool.eq_false_iff.2 hstill.1

/-- A write-back comes down to its writes, on a tree with the same directories and only those files
that stay. -/
theorem exists_writeBack_eq (h : t.WellFormed) (after : FileSet) :
    ∃ between : Tree, between.WellFormed
      ∧ (∀ x, between.isDirectory x ↔ t.isDirectory x)
      ∧ (∀ p ∈ between.files, p ∈ after)
      ∧ ∃ counts, (writeBack t.files.keys after : WorkspaceM Tree (Nat × Nat)) t
        = (writeAll after.toList >>= fun _ => pure counts : WorkspaceM Tree (Nat × Nat)) between := by
  let gone := t.files.keys.filter fun path => !after.contains path
  have hmem : ∀ p, p ∈ gone ↔ p ∈ t.files ∧ p ∉ after := by
    intro p
    rw [List.mem_filter, Std.ExtTreeMap.mem_keys, Bool.not_eq_true', ← Bool.not_eq_true,
      Std.ExtTreeMap.contains_iff_mem]
  have hnodup : gone.Nodup := Std.ExtTreeMap.nodup_keys.filter _
  obtain ⟨between, hrun, hwf, hdirectory, hfiles⟩ :=
    deleteAll_apply h (fun p hp => ((hmem p).1 hp).1) hnodup
  refine ⟨between, hwf, hdirectory, fun p hp => ?_, (after.size, gone.length), ?_⟩
  · by_contra hnot
    rw [Std.ExtTreeMap.mem_iff_isSome_getElem?, hfiles] at hp
    by_cases hold : p ∈ t.files
    · rw [if_pos ((hmem p).2 ⟨hold, hnot⟩)] at hp
      contradiction
    · rw [Std.ExtTreeMap.getElem?_eq_none hold, ite_self] at hp
      contradiction
  · rw [writeBack]
    exact bind_apply_ok hrun

/-- A write-back that succeeds leaves just the given files, and none of them where a directory
stood. -/
theorem of_writeBack_apply (h : t.WellFormed) (hnormal : ∀ p ∈ after, IsNormal p)
    (hrun : (writeBack t.files.keys after : WorkspaceM Tree (Nat × Nat)) t = (.ok counts, t')) :
    t'.files = after ∧ ∀ p ∈ after, t.isDirectory p = false := by
  obtain ⟨between, -, hdirectory, hstay, counts', hwrites⟩ := exists_writeBack_eq h after
  rw [hwrites] at hrun
  rcases hall : (writeAll after.toList : WorkspaceM Tree Unit) between with ⟨e | _, last⟩
  · rw [bind_apply_error hall] at hrun
    cases hrun
  · rw [bind_apply_ok hall] at hrun
    obtain ⟨-, rfl⟩ := Prod.mk.inj hrun
    obtain ⟨hlast, hfree⟩ := of_writeAll_apply (fun e he => hnormal e.1 (mem_of_mem_toList he)) hall
    constructor
    · rw [hlast, foldl_insert_toList hstay]
    · intro p hp
      have hfound := hfree (p, after[p]) (Std.ExtTreeMap.mem_toList_iff_getElem?_eq_some.2
        (Std.ExtTreeMap.getElem?_eq_some_getElem hp))
      rwa [Bool.eq_false_iff, ne_eq, hdirectory, ← ne_eq, ← Bool.eq_false_iff] at hfound

/-- A write-back of well-formed files succeeds if none of them stands where a directory stood. -/
theorem exists_writeBack_apply (h : t.WellFormed) (hafter : WellFormedFiles after)
    (hfree : ∀ p ∈ after, t.isDirectory p = false) : ∃ counts t',
    (writeBack t.files.keys after : WorkspaceM Tree (Nat × Nat)) t = (.ok counts, t') := by
  obtain ⟨between, -, hdirectory, hstay, counts, hwrites⟩ := exists_writeBack_eq h after
  have hfree' : ∀ e ∈ after.toList, between.isDirectory e.1 = false := by
    intro e he
    rw [Bool.eq_false_iff, ne_eq, hdirectory, ← ne_eq, ← Bool.eq_false_iff]
    exact hfree e.1 (mem_of_mem_toList he)
  obtain ⟨t', hall⟩ := writeAll_apply hafter (fun e he => mem_of_mem_toList he) hstay hfree'
  exact ⟨counts, t', hwrites.trans (bind_apply_ok hall)⟩

end Sandshell.Snapshot
