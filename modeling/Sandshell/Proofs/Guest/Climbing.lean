import Sandshell.Proofs.Guest.Descriptor
import Sandshell.Proofs.Path.Ways

/-!
# Paths that climb out of the root

A table resolves a path by folding it as a whole, and looks at the end of the way only. A way that
leaves the root and does not come back is refused; one that leaves the root and comes back is not.
Main statement: a path is resolved exactly if it never leaves the root, but for the paths that leave
it and return. A guest can name such a path only if it knows what its directory is called, so it can
find out the name.
-/

namespace Sandshell

namespace Path

variable {root here path names : List String} {p r : String}

/-- What may stand in a list of names that is joined to a path and split again. -/
def IsSegment (name : String) : Prop :=
  name ≠ "" ∧ '/' ∉ name.toList

theorem IsName.isSegment {name : String} (h : IsName name) : IsSegment name :=
  ⟨h.ne_empty, h.no_slash⟩

/-- The names that a way from a directory starts with. -/
def start (directory : String) : List String :=
  (segments directory).filter (· ≠ "")

/-- The names of the place where a path starts are segments of it. -/
theorem isSegment_of_mem_start {name : String} (h : name ∈ start p) : IsSegment name := by
  obtain ⟨hmem, hne⟩ := List.mem_filter.1 h
  exact ⟨by simpa using hne, no_slash_of_mem_segments hmem⟩

/-- A path made of segments starts at just these. -/
theorem start_ofSegments (h : ∀ name ∈ names, IsSegment name) :
    start (ofSegments names) = names := by
  by_cases hne : names = []
  · rw [hne]
    rfl
  · rw [start, segments_ofSegments hne fun name hname => (h name hname).2, List.filter_eq_self]
    intro name hname
    simpa using (h name hname).1

/-- One more name leads on by that name. -/
theorem start_join {directory name : String} (hname : IsSegment name) :
    start (join directory name) = start directory ++ [name] := by
  have hlast : start name = [name] := by
    have hself : start (ofSegments [name]) = [name] :=
      start_ofSegments (List.forall_mem_singleton.2 hname)
    rwa [ofSegments_singleton] at hself
  by_cases hroot : directory = ""
  · rw [hroot, join_empty, hlast]
    rfl
  · rw [join_of_ne hroot, start, segments_append, List.filter_append, ← start, ← start, hlast]

/-- Folding goes on with segments. -/
theorem isSegment_of_follow? (hhere : ∀ name ∈ here, IsSegment name)
    (h : follow? here (segments p) = some names) : ∀ name ∈ names, IsSegment name :=
  forall_of_follow? hhere (fun _ hname hne _ _ => ⟨hne, no_slash_of_mem_segments hname⟩) h

/-- A path is within a normal directory if its names go on after those of the directory. -/
theorem isWithin_iff_prefix {directory : String} (hdirectory : IsNormal directory)
    (hnames : ∀ name ∈ names, IsSegment name) :
    isWithin directory (ofSegments names) ↔ start directory <+: names := by
  obtain ⟨root, hroot, rfl⟩ := isNormal_iff.1 hdirectory
  rw [start_ofSegments fun name hname => (hroot name hname).isSegment, isWithin_iff]
  constructor
  · rintro (hempty | heq | hbelow)
    · have hnil := start_ofSegments fun name hname => (hroot name hname).isSegment
      rw [hempty] at hnil
      rw [← hnil]
      exact List.nil_prefix
    · have hsame := start_ofSegments fun name hname => (hroot name hname).isSegment
      rw [← heq, start_ofSegments hnames] at hsame
      exact hsame ▸ List.prefix_rfl
    · obtain ⟨rest, heq⟩ := below_iff.1 hbelow
      have hsame := congrArg start heq
      rw [start_ofSegments hnames, start, segments_append, List.filter_append] at hsame
      exact ⟨start rest, by rw [hsame, ← start, ← start,
        start_ofSegments fun name hname => (hroot name hname).isSegment]⟩
  · rintro ⟨rest, rfl⟩
    by_cases hnil : root = []
    · exact .inl (hnil ▸ ofSegments_nil)
    by_cases hrest : rest = []
    · exact .inr (.inl (by rw [hrest, List.append_nil]))
    · exact .inr (.inr (below_iff.2 ⟨ofSegments rest, ofSegments_append hnil hrest⟩))

/-! ## Ways that leave a directory -/

/-- Every initial part of the way leads to the directory with these names or below it. -/
def NeverLeaves (root here path : List String) : Prop :=
  ∀ part, part <+: path → ∃ names, follow? here part = some names ∧ root <+: names

/-- The way ends in the directory with these names or below it, but a part of it leads elsewhere. -/
def LeavesAndReturns (root here path : List String) : Prop :=
  (∃ names, follow? here path = some names ∧ root <+: names)
    ∧ ∃ part, part <+: path ∧ ∃ names, follow? here part = some names ∧ ¬ root <+: names

/-- A way that leads somewhere does so at every moment. -/
theorem exists_follow?_of_prefix {part : List String} (hpart : part <+: path)
    (h : follow? here path = some names) : ∃ mid, follow? here part = some mid := by
  obtain ⟨rest, rfl⟩ := hpart
  rw [follow?_append, Option.bind_eq_some_iff] at h
  obtain ⟨mid, hmid, -⟩ := h
  exact ⟨mid, hmid⟩

/-- A way that ends in the directory has never left it, or has come back. -/
theorem neverLeaves_or_leavesAndReturns (h : follow? here path = some names)
    (hroot : root <+: names) : NeverLeaves root here path ∨ LeavesAndReturns root here path := by
  by_cases hback : LeavesAndReturns root here path
  · exact .inr hback
  · refine .inl fun part hpart => ?_
    obtain ⟨mid, hmid⟩ := exists_follow?_of_prefix hpart h
    exact ⟨mid, hmid, by_contra fun hout => hback ⟨⟨names, h, hroot⟩, part, hpart, mid, hmid, hout⟩⟩

theorem NeverLeaves.not_leavesAndReturns (h : NeverLeaves root here path) :
    ¬ LeavesAndReturns root here path := by
  rintro ⟨-, part, hpart, mid, hmid, hout⟩
  obtain ⟨names, hnames, hroot⟩ := h part hpart
  exact hout (Option.some.inj (hnames.symm.trans hmid) ▸ hroot)

end Path

namespace DescriptorTable

open Sandshell.Path (IsNormal isWithin start NeverLeaves LeavesAndReturns)

variable {t : DescriptorTable} {fd : Nat} {base name path r : String}

/-- A path is resolved if it is relative and has no NUL, and its way ends in the root. -/
theorem resolve_eq_ok_iff (hroot : IsNormal t.root)
    (hget : t.get? fd = some (.directory base name)) :
    t.resolve fd path = .ok r ↔ Path.isAbsolute path = false ∧ Path.hasNul path = false
      ∧ ∃ names, Path.follow? (start base) (Path.segments path) = some names
        ∧ start t.root <+: names ∧ Path.ofSegments names = r := by
  rw [resolve, hget]
  dsimp only
  cases Path.isAbsolute path with
  | true => simp
  | false =>
    cases Path.hasNul path with
    | true => simp
    | false =>
      rw [Bool.or_self, if_neg Bool.false_ne_true, ← start]
      cases hfollow : Path.follow? (start base) (Path.segments path) with
      | none => simp
      | some names =>
        have hsegments := Path.isSegment_of_follow? (fun _ => Path.isSegment_of_mem_start) hfollow
        have hwithin := Path.isWithin_iff_prefix hroot hsegments
        dsimp only
        split
        · next hin => simp [hwithin.1 hin]
        · next hout => simp [mt hwithin.2 hout]

/-- Every other path is an invalid argument. -/
theorem resolve_eq_error {e : Errno} (hget : t.get? fd = some (.directory base name))
    (h : t.resolve fd path = .error e) : e = .inval := by
  rw [resolve, hget] at h
  dsimp only at h
  split at h
  · exact (Except.error.inj h).symm
  split at h
  · exact (Except.error.inj h).symm
  split at h
  · cases h
  · exact (Except.error.inj h).symm

/-- From an open directory, in a table with a normal root: a path that is resolved leads where
folding it leads, to the root or below it, and any other path is an invalid argument. Exactly the
relative paths without NUL that never leave the root are resolved, unless the path leaves the root
and returns. -/
theorem resolve_refuses_climbs_iff (hroot : IsNormal t.root)
    (hget : t.get? fd = some (.directory base name)) (path : String) :
    (∀ r, t.resolve fd path = .ok r →
      (Path.follow? (start base) (Path.segments path)).map Path.ofSegments = some r
        ∧ isWithin t.root r)
    ∧ (∀ e, t.resolve fd path = .error e → e = .inval)
    ∧ (((∃ r, t.resolve fd path = .ok r) ↔ Path.isAbsolute path = false ∧ Path.hasNul path = false
          ∧ NeverLeaves (start t.root) (start base) (Path.segments path))
      ↔ ¬ (Path.isAbsolute path = false ∧ Path.hasNul path = false
          ∧ LeavesAndReturns (start t.root) (start base) (Path.segments path))) := by
  have hok : ∀ r, t.resolve fd path = .ok r ↔ _ := fun r => resolve_eq_ok_iff hroot hget
  refine ⟨fun r hr => ?_, fun e => resolve_eq_error hget, fun hclaim hback => ?_, fun hback => ?_⟩
  · obtain ⟨-, -, names, hnames, hprefix, rfl⟩ := (hok r).1 hr
    have hsegments := Path.isSegment_of_follow? (fun _ => Path.isSegment_of_mem_start) hnames
    exact ⟨by rw [hnames, Option.map_some], (Path.isWithin_iff_prefix hroot hsegments).2 hprefix⟩
  · -- a way that has come back is resolved like any other one that ends in the root
    obtain ⟨hrelative, hnul, hleaves⟩ := hback
    obtain ⟨names, hnames, hprefix⟩ := hleaves.1
    have hnever := (hclaim.1 ⟨_, (hok _).2 ⟨hrelative, hnul, names, hnames, hprefix, rfl⟩⟩).2.2
    exact hnever.not_leavesAndReturns hleaves
  · constructor
    · rintro ⟨r, hr⟩
      obtain ⟨hrelative, hnul, names, hnames, hprefix, -⟩ := (hok r).1 hr
      have hnever := Path.neverLeaves_or_leavesAndReturns hnames hprefix
      exact ⟨hrelative, hnul, hnever.resolve_right fun hleaves => hback ⟨hrelative, hnul, hleaves⟩⟩
    · rintro ⟨hrelative, hnul, hnever⟩
      obtain ⟨names, hnames, hprefix⟩ := hnever _ List.prefix_rfl
      exact ⟨_, (hok _).2 ⟨hrelative, hnul, names, hnames, hprefix, rfl⟩⟩

/-! ## What a guest can find out -/

/-- A guest that goes up and down again is told by the answer what its directory is called. -/
theorem resolve_sibling_iff {directory guess : String} (hroot : IsNormal (Path.join directory name))
    (hname : Path.IsName name) (hguess : Path.IsName guess) :
    (∃ r, (ofRoot (Path.join directory name)).resolve rootDescriptor (".." ++ "/" ++ guess) = .ok r)
      ↔ guess = name := by
  have hsegments : Path.segments (".." ++ "/" ++ guess) = [".."] ++ [guess] := by
    rw [Path.segments_append, Path.segments_of_no_slash hguess.no_slash]
    rfl
  have hfollow : Path.follow? (start directory ++ [name]) ([".."] ++ [guess])
      = some (start directory ++ [guess]) := by
    have hup : Path.follow? (start directory ++ [name]) [".."] = some (start directory) := by
      simp [Path.follow?]
    rw [Path.follow?_append, hup, Option.bind_some,
      Path.follow?_names (List.forall_mem_singleton.2 hguess)]
  -- the text is relative and has no NUL, so that only its segments count
  have hrelative : Path.isAbsolute (".." ++ "/" ++ guess) = false := by
    rw [String.append_assoc]
    exact Path.isAbsolute_append (by decide) _
  have hnul : Path.hasNul (".." ++ "/" ++ guess) = false := by
    have hguess := Path.hasNul_ofSegments (List.forall_mem_singleton.2 hguess)
    rw [Path.ofSegments_singleton] at hguess
    rw [Path.hasNul_append, hguess]
    rfl
  have hok : ∀ r, (ofRoot (Path.join directory name)).resolve rootDescriptor
      (".." ++ "/" ++ guess) = .ok r ↔ _ := fun r => resolve_eq_ok_iff hroot (get?_ofRoot _)
  rw [hrelative, hnul, hsegments, Path.start_join hname.isSegment, hfollow] at hok
  constructor
  · rintro ⟨r, hr⟩
    -- a place inside the root is as long a way as the root and begins with it
    obtain ⟨-, -, names, hnames, hprefix, -⟩ := (hok r).1 hr
    rw [ofRoot, Path.start_join hname.isSegment, ← Option.some.inj hnames,
      List.prefix_append_right_inj] at hprefix
    simpa [eq_comm] using hprefix.eq_of_length rfl
  · rintro rfl
    have hstart : start (ofRoot (Path.join directory guess)).root = start directory ++ [guess] :=
      Path.start_join hname.isSegment
    exact ⟨_, (hok _).2 ⟨rfl, rfl, _, rfl, hstart ▸ List.prefix_rfl, rfl⟩⟩

/-- The table of a guest that starts in `work` and has opened a directory there. -/
def inWork : DescriptorTable :=
  (ofRoot "work").added (.directory "work/a" "work/a")

theorem resolve_refuses_climbs_inWork : IsNormal inWork.root
    ∧ inWork.get? 4 = some (.directory "work/a" "work/a")
    ∧ inWork.resolve 4 "./../b" = .ok "work/b"
    ∧ isWithin "work" "work/b"
    ∧ inWork.resolve 4 "../../works" = .error .inval
    ∧ ¬ (Path.isAbsolute "../../works" = false ∧ Path.hasNul "../../works" = false
      ∧ NeverLeaves (start "work") (start "work/a") (Path.segments "../../works")) := by
  have hroot : IsNormal inWork.root := by decide +kernel
  have hget : inWork.get? 4 = some (.directory "work/a" "work/a") := by decide +kernel
  have hdown : inWork.resolve 4 "./../b" = .ok "work/b" := by decide +kernel
  have hsibling : inWork.resolve 4 "../../works" = .error .inval := by decide +kernel
  have hfollow : Path.follow? (start "work/a") (Path.segments "../../works") = some ["works"] := by
    decide +kernel
  obtain ⟨hok, -, -⟩ := resolve_refuses_climbs_iff hroot hget "./../b"
  obtain ⟨-, -, hiff⟩ := resolve_refuses_climbs_iff hroot hget "../../works"
  refine ⟨hroot, hget, hdown, (hok _ hdown).2, hsibling, fun hclaim => ?_⟩
  -- the way ends outside, so it has not come back
  obtain ⟨r, hr⟩ := (hiff.2 (by
    rintro ⟨-, -, ⟨names, hnames, hprefix⟩, -⟩
    rw [show start inWork.root = ["work"] by decide +kernel,
      ← Option.some.inj (hfollow.symm.trans hnames)] at hprefix
    exact absurd hprefix (by decide))).2 hclaim
  rw [hsibling] at hr
  cases hr

theorem not_forall_refuses_climbs : ¬ ∀ (t : DescriptorTable) (fd : Nat) (base name path : String),
    IsNormal t.root → t.get? fd = some (.directory base name) → isWithin t.root base →
      ((∃ r, t.resolve fd path = .ok r) ↔ Path.isAbsolute path = false
        ∧ Path.hasNul path = false
        ∧ NeverLeaves (start t.root) (start base) (Path.segments path)) := by
  intro h
  have hroot : IsNormal (Path.join "" "work") := by decide +kernel
  have hname : Path.IsName "work" := by
    refine ⟨by decide, by decide, by decide, by decide, by decide⟩
  have hclaim := h (ofRoot "work") rootDescriptor _ _ (".." ++ "/" ++ "work") hroot
    (get?_ofRoot _) (Path.isWithin_self _)
  obtain ⟨-, -, hnever⟩ := hclaim.1 ((resolve_sibling_iff hroot hname hname).2 rfl)
  obtain ⟨names, hnames, hout⟩ := hnever [".."] ⟨["work"], by decide +kernel⟩
  rw [show Path.follow? (start "work") [".."] = some [] by decide +kernel] at hnames
  rw [← Option.some.inj hnames] at hout
  exact absurd hout (by decide +kernel)

end DescriptorTable

end Sandshell
