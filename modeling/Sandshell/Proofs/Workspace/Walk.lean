import Sandshell.Proofs.Bundle.Snapshot
import Sandshell.Proofs.Step

/-!
# What walks find

A walk whose visits succeed and leave the workspace alone is told by what each visit finds and hands
on. It ends after any number of visits that is no less than a measure of what is waiting, if visits
take from that. A snapshot so reads every file once.
-/

namespace Sandshell

namespace Walk

variable {W α α' β β' : Type}

/-- What a walk finds, given what a visit finds and what it hands on. -/
inductive Finds (visit : α → List β × List α) : List α → List β → Prop
  | done : Finds visit [] []
  | next {a : α} {waiting : List α} {found : List β}
      (h : Finds visit ((visit a).2 ++ waiting) found) :
      Finds visit (a :: waiting) ((visit a).1 ++ found)

/-- As long as what is waiting is ready, a visit succeeds, leaves the workspace alone, and what is
waiting after it is ready and of smaller size. -/
structure Progresses (step : α' → WorkspaceM W (List β' × List α')) (w : W)
    (visit : α → List β × List α) (place : α → α') (shown : β → β') (ready : List α → Prop)
    (size : List α → Nat) : Prop where
  step_apply : ∀ a waiting, ready (a :: waiting) →
    step (place a) w = (.ok ((visit a).1.map shown, (visit a).2.map place), w)
  ready_next : ∀ a waiting, ready (a :: waiting) → ready ((visit a).2 ++ waiting)
  size_next : ∀ a waiting, ready (a :: waiting) →
    size ((visit a).2 ++ waiting) < size (a :: waiting)

variable {step : α' → WorkspaceM W (List β' × List α')} {w : W} {visit : α → List β × List α}
variable {place : α → α'} {shown : β → β'} {ready : List α → Prop} {size : List α → Nat}

/-- A walk that progresses ends, and what it finds does not depend on how many visits it was given. -/
theorem Progresses.run_apply (h : Progresses step w visit place shown ready size)
    {waiting : List α} (hready : ready waiting) : ∃ found, Finds visit waiting found ∧
      ∀ n, size waiting ≤ n → run step n (waiting.map place) w = (.ok (found.map shown), w) := by
  induction hsize : size waiting using Nat.strong_induction_on generalizing waiting with
  | _ m ih =>
    cases waiting with
    | nil =>
      refine ⟨[], .done, fun n _ => ?_⟩
      cases n <;> rfl
    | cons a rest =>
      have hless := h.size_next a rest hready
      obtain ⟨found, hfinds, hrun⟩ := ih _ (hsize ▸ hless) (h.ready_next a rest hready) rfl
      refine ⟨(visit a).1 ++ found, .next hfinds, fun n hn => ?_⟩
      -- one visit is spent here, the others suffice for what is waiting then
      obtain ⟨k, rfl⟩ : ∃ k, n = k + 1 := Nat.exists_eq_add_of_le' (by omega)
      have hrest := hrun k (by omega)
      rw [List.map_append] at hrest
      rw [List.map_cons, run, bind_apply_ok (h.step_apply a rest hready)]
      show (_ >>= _ : WorkspaceM W (List β')) w = _
      rw [bind_apply_ok hrest, List.map_append]
      rfl

end Walk

/-! ## The walk of a snapshot -/

namespace Snapshot

open Sandshell.Path (isWithin)

variable {t : Tree} {d p : String} {waiting : List String} {found : List (String × Bytes)}

/-- Directories, none of which is within another one. -/
def AllApart (t : Tree) (waiting : List String) : Prop :=
  (∀ d ∈ waiting, t.isDirectory d) ∧ waiting.Pairwise Apart

theorem allApart_root (t : Tree) : AllApart t [""] :=
  ⟨List.forall_mem_singleton.2 t.isDirectory_root, List.pairwise_singleton _ _⟩

/-- What a visit finds and hands on. -/
def inside (t : Tree) (d : String) : List (String × Bytes) × List String :=
  (filesIn t d, directoriesIn t d)

/-- A snapshot gets closer to its end with each visit. -/
theorem progresses (h : t.WellFormed) :
    Walk.Progresses visit t (inside t) id id (AllApart t)
      fun waiting => (pending t waiting).card where
  step_apply d rest hready := by
    show visit d t = _
    rw [visit_apply h (hready.1 d List.mem_cons_self), List.map_id, List.map_id]
    rfl
  ready_next d rest hready := directoriesIn_append h hready.1 hready.2
  size_next d rest hready := card_pending_lt h (hready.1 d List.mem_cons_self) hready.2

/-- No file is found twice. -/
theorem nodup_filesIn (t : Tree) (d : String) : (filesIn t d).Nodup := by
  have hpath : ∀ entry file, file ∈ (entryFound t d entry).1 → file.1 = Path.join d entry.name := by
    intro entry file hmem
    cases hkind : entry.kind with
    | file =>
      simp only [entryFound, hkind, List.mem_singleton] at hmem
      exact congrArg Prod.fst hmem
    | directory => simp [entryFound, hkind] at hmem
  rw [filesIn, List.flatMap_map, List.Nodup, List.pairwise_flatMap]
  refine ⟨fun entry _ => ?_, (Tree.pairwise_entries t d).imp fun hlt x hx y hy hxy => ?_⟩
  · cases hkind : entry.kind with
    | file => simp [entryFound, hkind]
    | directory => simp [entryFound, hkind]
  · have hnames := (hpath _ x hx).symm.trans ((congrArg Prod.fst hxy).trans (hpath _ y hy))
    exact absurd (Path.join_inj hnames) hlt.ne

/-- A file in a directory is within none of the directories there, nor within any that is apart. -/
theorem not_isWithin_of_mem_filesIn (h : t.WellFormed) {e : String} {data : Bytes}
    (hmem : (p, data) ∈ filesIn t d) (he : e ∈ directoriesIn t d ∨ Apart d e) : ¬ isWithin e p := by
  obtain ⟨name, hname, hne, rfl, hdata⟩ := (mem_filesIn h).1 hmem
  have hfile : Path.join d name ∈ t.files := Std.ExtTreeMap.mem_iff_isSome_getElem?.2 (hdata ▸ rfl)
  rcases he with he | hapart
  · obtain ⟨other, -, hother, rfl, hkind⟩ := (mem_directoriesIn h).1 he
    rw [Path.isWithin_iff, not_or, not_or]
    refine ⟨Path.join_ne_empty hother, fun heq => ?_, Path.not_below_join hname⟩
    rw [← heq, Tree.kind?_of_mem hfile] at hkind
    contradiction
  · exact (hapart.join hname hne).2

/-- A walk finds the files within the directories that are waiting, each of them once. -/
theorem files_of_finds (h : t.WellFormed) (hfinds : Walk.Finds (inside t) waiting found)
    (hready : AllApart t waiting) : found.Nodup ∧ ∀ p data,
      (p, data) ∈ found ↔ t.files[p]? = some data ∧ ∃ d ∈ waiting, isWithin d p := by
  induction hfinds with
  | done => exact ⟨List.nodup_nil, by simp⟩
  | @next d rest found _ ih =>
    obtain ⟨hnodup, hfound⟩ := ih ((progresses h).ready_next d rest hready)
    constructor
    · refine List.nodup_append.2 ⟨nodup_filesIn t d, hnodup, fun file hfile other hother heq => ?_⟩
      obtain ⟨-, e, he, hwithin⟩ := (hfound other.1 other.2).1 hother
      refine not_isWithin_of_mem_filesIn h hfile ?_ (heq ▸ hwithin)
      exact (List.mem_append.1 he).imp id ((List.pairwise_cons.1 hready.2).1 e)
    · intro p data
      have hvisit := mem_filesIn_or h (hready.1 d List.mem_cons_self) p data
      simp only [inside] at hfound ⊢
      simp only [List.mem_append, hfound, List.mem_cons, or_and_right, exists_or, and_or_left,
        exists_eq_left, hvisit, or_assoc]

/-- A snapshot reads each file of the tree once, with any number of visits that is no less than the
extent of the tree. -/
theorem run_root (h : t.WellFormed) : ∃ found, found.Perm t.files.toList ∧
    ∀ n, t.extent ≤ n → Walk.run visit n [""] t = (.ok found, t) := by
  have hready := allApart_root t
  obtain ⟨found, hfinds, hrun⟩ := (progresses h).run_apply hready
  obtain ⟨hnodup, hfound⟩ := files_of_finds h hfinds hready
  refine ⟨found, ?_, fun n hn => ?_⟩
  · have hkeys : t.files.toList.Nodup := by
      refine List.Pairwise.imp (fun hne heq => ?_) Std.ExtTreeMap.distinct_keys_toList
      exact hne (Std.compare_eq_iff_eq.2 (congrArg Prod.fst heq))
    refine (List.perm_ext_iff_of_nodup hnodup hkeys).2 fun file => ?_
    rw [hfound, Std.ExtTreeMap.mem_toList_iff_getElem?_eq_some]
    refine and_iff_left ⟨"", List.mem_singleton_self "", ?_⟩
    exact Path.isWithin_iff.2 (.inl rfl)
  · have happly := hrun n ((card_pending_le t [""]).trans hn)
    rwa [List.map_id, List.map_id] at happly

end Snapshot

end Sandshell
