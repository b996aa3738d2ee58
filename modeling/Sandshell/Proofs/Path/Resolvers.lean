import Sandshell.Proofs.Guest.Descriptor
import Sandshell.Proofs.Path.Ways
import Sandshell.Shell.State

/-!
# Resolvers of paths

Workspaces normalize a path, the shell resolves it against its working directory, and guests name it
from an open directory. The three agree wherever they meet: normalizing is resolving at the root, an
open directory of a table with the root as its root leads where the shell standing in it gets, and
resolving in two steps is resolving the joined text.
-/

namespace Sandshell

namespace Path

variable {cwd p q r : String} {here path names : List String}

/-- Without double dots the folded way goes on by the names in the path. -/
theorem follow?_of_not_mem (h : ".." ∉ path) (here : List String) :
    follow? here path = some (here ++ path.filter fun name => name ≠ "" ∧ name ≠ ".") := by
  induction path generalizing here with
  | nil => rw [follow?, List.filter_nil, List.append_nil]
  | cons name rest ih =>
    obtain ⟨hname, hrest⟩ := List.ne_and_not_mem_of_not_mem_cons h
    by_cases hskip : name = "" ∨ name = "."
    · rw [follow?, if_pos hskip, ih hrest, List.filter_cons_of_neg]
      simpa [or_iff_not_imp_left] using hskip
    · rw [follow?, if_neg hskip, if_neg hname.symm, ih hrest, List.filter_cons_of_pos,
        List.append_assoc]
      · rfl
      · simpa [not_or] using hskip

/-- A path that can be normalized is folded to its normal form, from the root. -/
theorem follow?_of_normalize? (h : normalize? p = some r) :
    ∃ names, follow? [] (segments p) = some names ∧ ofSegments names = r := by
  obtain ⟨hnames, rfl⟩ := of_normalize?_eq_some h
  have hdots : ".." ∉ segments p := by
    intro hmem
    exact (hnames ".." (List.mem_filter.2 ⟨hmem, by simp⟩)).ne_dots rfl
  exact ⟨components p, by rw [follow?_of_not_mem hdots, List.nil_append, components], rfl⟩

/-- Normalizing is resolving at the root. -/
theorem resolve?_of_normalize? (h : normalize? p = some r) : resolve? "" p = some r := by
  obtain ⟨hnul, hrelative⟩ := not_of_normalize? h
  exact (resolve?_eq_some_iff hrelative).2 ⟨hnul, follow?_of_normalize? h⟩

/-- Where an absolute or relative path leads, as segments. -/
theorem resolve?_eq (cwd p : String) : resolve? cwd p = if hasNul p then none else
    (follow? (if isAbsolute p then [] else (segments cwd).filter (· ≠ "")) (segments p)).map
      ofSegments :=
  rfl

/-- Resolving in two steps is resolving the joined text. -/
theorem resolve?_append (hcwd : IsNormal cwd) (hp : p ≠ "") (hq : isAbsolute q = false) :
    resolve? cwd (p ++ "/" ++ q) = (resolve? cwd p).bind (resolve? · q) := by
  have hslash : hasNul "/" = false := rfl
  have habsolute : isAbsolute (p ++ "/" ++ q) = isAbsolute p := by
    rw [String.append_assoc, isAbsolute_append hp]
  rw [resolve?_eq cwd p, resolve?_eq cwd, habsolute, segments_append, follow?_append, hasNul_append,
    hasNul_append, hslash, Bool.or_false]
  cases hnul : hasNul p with
  | true => rfl
  | false =>
    rw [Bool.false_or, if_neg Bool.false_ne_true]
    cases hfollow : follow? (if isAbsolute p then [] else (segments cwd).filter (· ≠ ""))
        (segments p) with
    | none => cases hasNul q <;> rfl
    | some names =>
      -- the place reached is a list of names, which its text gives back
      have hresolved : resolve? cwd p = some (ofSegments names) := by
        rw [resolve?_eq, hnul, if_neg Bool.false_ne_true, hfollow, Option.map_some]
      have hnormal := isNormal_of_resolve? hcwd hresolved
      have hnames : ∀ name ∈ names, IsName name := by
        refine isName_of_follow? ?_ (segment_of_hasNul hnul) hfollow
        split
        · exact List.forall_mem_nil _
        · obtain ⟨start, hstart, rfl⟩ := isNormal_iff.1 hcwd
          rwa [filter_segments_ofSegments hstart]
      rw [Option.bind_some, Option.map_some, Option.bind_some, resolve?_eq, hq,
        if_neg Bool.false_ne_true, filter_segments_ofSegments hnames]

/-- The parent and the last segment of a path join to the path. -/
theorem join_split (h : IsNormal p) (hne : p ≠ "") : join (split p).1 (split p).2 = p := by
  obtain ⟨d, name, hname, rfl⟩ := exists_eq_join h hne
  rw [split_join hname.no_slash]

end Path

open Sandshell.Path (IsNormal)

/-- The resolver of the shell resolves to what the definition says. -/
theorem toOption_resolvePath (cwd p : String) :
    (resolvePath cwd p).toOption = Path.resolve? cwd p := by
  rw [resolvePath]
  cases Path.resolve? cwd p <;> rfl

/-- It succeeds exactly where there is something to resolve to. -/
theorem resolvePath_eq_ok_iff {cwd p r : String} :
    resolvePath cwd p = .ok r ↔ Path.resolve? cwd p = some r := by
  rw [resolvePath]
  cases Path.resolve? cwd p <;> simp

/-- A workspace normalizes exactly what has a normal form. -/
theorem WorkspaceError.normalize_eq_ok_iff {p r : String} :
    WorkspaceError.normalize p = .ok r ↔ Path.normalize? p = some r := by
  rw [WorkspaceError.normalize]
  cases Path.normalize? p <;> simp

/-- In a table whose root is the root, an open directory leads where a relative path leads from
it. -/
theorem DescriptorTable.toOption_resolve {t : DescriptorTable} {fd : Nat} {cwd name p : String}
    (hroot : t.root = "") (hget : t.get? fd = some (.directory cwd name))
    (hp : Path.isAbsolute p = false) : (t.resolve fd p).toOption = Path.resolve? cwd p := by
  have hwithin : ∀ path, Path.isWithin t.root path = true := fun path => by
    rw [hroot]
    exact Path.isWithin_iff.2 (.inl rfl)
  rw [resolve, hget, Path.resolve?_eq, hp]
  dsimp only
  rw [Bool.false_or, if_neg Bool.false_ne_true]
  cases Path.hasNul p with
  | true => rfl
  | false =>
    rw [if_neg Bool.false_ne_true, if_neg Bool.false_ne_true]
    cases Path.follow? ((Path.segments cwd).filter (· ≠ "")) (Path.segments p) with
    | none => rfl
    | some names => simp [hwithin, Except.toOption]

/-- Normalizing, resolving and naming from an open directory agree: what is normalized resolves to
the same path at the root and from a descriptor there; what is resolved is left alone by both; an
open directory leads where the shell gets from it; a path resolved from where another one leads is
the joined path resolved; and a normal path is its parent joined with its last segment. -/
theorem resolvers_agree :
    (∀ p r, WorkspaceError.normalize p = .ok r → WorkspaceError.normalize r = .ok r
      ∧ resolvePath "" p = .ok r
      ∧ (DescriptorTable.ofRoot "").resolve DescriptorTable.rootDescriptor p = .ok r)
    ∧ ∀ cwd, WorkspaceError.normalize cwd = .ok cwd →
      (∀ p r, resolvePath cwd p = .ok r → WorkspaceError.normalize r = .ok r
        ∧ resolvePath "" r = .ok r)
      ∧ (∀ (t : DescriptorTable) (fd : Nat) (name p : String), t.root = "" →
        t.get? fd = some (.directory cwd name) → Path.isAbsolute p = false →
        (t.resolve fd p).toOption = (resolvePath cwd p).toOption)
      ∧ (∀ p q, p ≠ "" → Path.isAbsolute q = false →
        ((resolvePath cwd p).toOption.bind fun d => (resolvePath d q).toOption)
          = (resolvePath cwd (p ++ "/" ++ q)).toOption)
      ∧ (cwd ≠ "" → Path.join (Path.split cwd).1 (Path.split cwd).2 = cwd) := by
  simp only [WorkspaceError.normalize_eq_ok_iff, resolvePath_eq_ok_iff, toOption_resolvePath]
  refine ⟨fun p r h => ?_, fun cwd hcwd => ⟨fun p r h => ?_, ?_, ?_, Path.join_split hcwd⟩⟩
  -- a path is normalized by resolving it at the root
  · have hroot := DescriptorTable.toOption_resolve (t := .ofRoot "") rfl
      (DescriptorTable.get?_ofRoot "") (Path.not_of_normalize? h).2
    have hresolved := Path.resolve?_of_normalize? h
    refine ⟨Path.isNormal_of_normalize? h, hresolved, ?_⟩
    rw [hresolved] at hroot
    cases hok : (DescriptorTable.ofRoot "").resolve DescriptorTable.rootDescriptor p with
    | error e => simp [hok, Except.toOption] at hroot
    | ok resolved =>
      rw [hok] at hroot
      exact congrArg Except.ok (Option.some.inj hroot)
  · have hnormal := Path.isNormal_of_resolve? hcwd h
    exact ⟨hnormal, Path.resolve?_of_normalize? hnormal⟩
  · exact fun t fd name p hroot hget hp => DescriptorTable.toOption_resolve hroot hget hp
  · exact fun p q hp hq => (Path.resolve?_append hcwd hp hq).symm

/-- The table of a guest that starts in the root, after it has opened a directory. -/
def DescriptorTable.withDirectory : DescriptorTable :=
  (ofRoot "").added (.directory "a/b" "b")

/-- Empty segments, dots, a slash in front and one at the end make no difference. -/
theorem resolvers_agree_odd : WorkspaceError.normalize "a//./b/" = .ok "a/b"
    ∧ resolvePath "" "a//./b/" = .ok "a/b"
    ∧ WorkspaceError.normalize "a/b" = .ok "a/b"
    ∧ resolvePath "a/b" "/c/../d/" = .ok "d" ∧ WorkspaceError.normalize "d" = .ok "d"
    ∧ (DescriptorTable.withDirectory.resolve 4 "../x").toOption
      = (resolvePath "a/b" "../x").toOption
    ∧ ((resolvePath "a/b" "..").toOption.bind fun d => (resolvePath d "../x").toOption)
      = (resolvePath "a/b" "../../x").toOption
    ∧ Path.join (Path.split "a/b").1 (Path.split "a/b").2 = "a/b" := by
  have hodd : WorkspaceError.normalize "a//./b/" = .ok "a/b" := by decide +kernel
  have hcwd : WorkspaceError.normalize "a/b" = .ok "a/b" := by decide +kernel
  have hslash : resolvePath "a/b" "/c/../d/" = .ok "d" := by decide +kernel
  obtain ⟨hnormal, hfrom⟩ := resolvers_agree
  obtain ⟨hfixed, hopen, hsteps, hjoin⟩ := hfrom "a/b" hcwd
  exact ⟨hodd, (hnormal _ _ hodd).2.1, hcwd, hslash, (hfixed _ _ hslash).1,
    hopen .withDirectory 4 "b" "../x" rfl (by decide +kernel) (by decide +kernel),
    hsteps ".." "../x" (by decide) (by decide +kernel), hjoin (by decide)⟩

end Sandshell
