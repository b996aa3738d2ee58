import Sandshell.Proofs.Shell.Frame
import Sandshell.Proofs.Tree.History

/-!
# What scripts leave of a tree

The only call of a shell that changes a workspace is the one that writes the files of output
redirections; the delegate may make others. In a tree a write takes nothing away. And a file is
written only where a `>` was read in the text of the script, so that a text without one leaves the
tree as it was: the values of variables, the defaults of parameters and what substitutions print may
hold any number of them.
-/

namespace Sandshell

namespace Tree

variable {t t' t'' : Tree} {path : String} {data : Bytes}

/-- Nothing that stood is gone. -/
structure Grows (t t' : Tree) : Prop where
  files : ∀ p ∈ t.files, p ∈ t'.files
  directories : ∀ p ∈ t.directories, p ∈ t'.directories

theorem Grows.refl (t : Tree) : t.Grows t :=
  ⟨fun _ hp => hp, fun _ hp => hp⟩

theorem Grows.trans (h : t.Grows t') (h' : t'.Grows t'') : t.Grows t'' :=
  ⟨fun p hp => h'.files p (h.files p hp), fun p hp => h'.directories p (h.directories p hp)⟩

/-- A tree that grows keeps its directories. -/
theorem Grows.isDirectory (h : t.Grows t') {p : String} (hp : t.isDirectory p) : t'.isDirectory p :=
  isDirectory_mono hp h.files h.directories

/-- A write adds a file or replaces the contents of one. -/
theorem grows_write (t : Tree) (path : String) (data : Bytes) :
    t.Grows (Workspace.write path data t).2 := by
  show t.Grows (change (·.write path data) t).2
  cases hwrite : t.write path data with
  | error e =>
    rw [change_of_error _ hwrite]
    exact .refl t
  | ok t' =>
    rw [change_of_ok _ hwrite]
    cases hnormal : Path.normalize? path with
    | none =>
      rw [write, normalize_eq_error hnormal] at hwrite
      contradiction
    | some p =>
      rw [write_of_normalize? hnormal] at hwrite
      obtain ⟨-, rfl⟩ := of_write_eq_ok (Path.isNormal_of_normalize? hnormal) hwrite
      exact ⟨fun q hq => Std.ExtTreeMap.mem_insert.2 (.inr hq), fun q hq => hq⟩

/-- Terms on any paths, for walks with an end or without. -/
abbrev terms (holds : Tree → Prop) (writes : Prop) : Workspace.Terms Tree where
  holds := holds
  fails _ := holds
  path _ := True
  name _ := True
  writes := writes
  endless := True

/-- Without a delegate it is enough to look at the writes, since no other call changes a tree. -/
theorem terms_permits {sh : Shell Tree} (hd : sh.delegate? = none) {holds : Tree → Prop}
    {writes : Prop}
    (hwrite : writes → ∀ path data t, holds t → holds (Workspace.write path data t).2) :
    (terms holds writes).Permits sh where
  root := trivial
  resolve _ _ := trivial
  enter _ _ := trivial
  leave _ := trivial
  segment _ _ _ _ := trivial
  read _ := Invariant.keeps_steady_iff.2 fun _ ht => ht
  stat _ := Invariant.keeps_steady_iff.2 fun _ ht => ht
  list _ := (Invariant.keeps_steady_iff.2 fun _ ht => ht).imp fun _ _ _ _ => trivial
  search _ _ := trivial
  write data hwrites _ := Invariant.keeps_steady_iff.2 fun t ht => hwrite hwrites _ data t ht
  delegates hsome := by
    rw [hd] at hsome
    contradiction
  survives _ _ := Iff.rfl
  hangs _ _ ht := ht

end Tree

namespace Shell

/-- Without a delegate, no script takes a file or a directory away, be there failures or not, and a
script without a `>` in its text leaves the whole tree as it was. -/
theorem execute_takes_nothing_away {sh : Shell Tree} (hd : sh.delegate? = none) (text : String)
    (s : Session Tree) :
    (∀ p ∈ s.workspace.files, p ∈ (sh.execute text s).2.workspace.files)
      ∧ (∀ p, s.workspace.isDirectory p → (sh.execute text s).2.workspace.isDirectory p)
      ∧ ('>' ∉ text.toList → (sh.execute text s).2.workspace = s.workspace) := by
  have hgrowing : (Tree.terms s.workspace.Grows True).Permits sh :=
    Tree.terms_permits hd fun _ path data t ht => ht.trans (t.grows_write path data)
  have hgrows : s.workspace.Grows (sh.execute text s).2.workspace :=
    hgrowing.holds_after_execute (fun _ => Iff.rfl) (fun _ => trivial)
      ⟨.refl s.workspace, trivial⟩
  refine ⟨hgrows.files, fun p hp => hgrows.isDirectory hp, fun hnone => ?_⟩
  -- without a `>` there is no write that could change the tree
  have hstill : (Tree.terms (· = s.workspace) False).Permits sh := Tree.terms_permits hd False.elim
  exact hstill.holds_after_execute (fun _ => Iff.rfl) hnone ⟨rfl, trivial⟩

/-- What parameters hold, files contain and substitutions print is never read as a redirection. -/
theorem execute_takes_nothing_away_printed :
    let sh : Shell Tree := {}
    let text := "printf '%s ' $1 $(cat f) ${2:-$(cat d/g)}; missing $1 f; (cd d; cat *)"
    let files := [("d/g", Bytes.ofString "2>h"), ("f", Bytes.ofString ">>f")]
    let s : Session Tree := ⟨Tree.ofFiles files, { positional := [">f"] }⟩
    sh.delegate? = none ∧ '>' ∉ text.toList
      ∧ (sh.execute text s).1.toOption.map ExecutionResult.stdout
        = some (Bytes.ofString ">f >>f 2>h 2>h")
      ∧ (sh.execute text s).2.workspace = s.workspace := by
  refine ⟨rfl, by decide, by decide +kernel, ?_⟩
  exact (execute_takes_nothing_away rfl _ _).2.2 (by decide)

end Shell

end Sandshell
