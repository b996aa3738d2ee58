import Sandshell.Proofs.Path.Resolvers
import Sandshell.Proofs.Shell.Values
import Sandshell.Proofs.Shell.Walks

/-!
# Globbing

A field with wildcards stands for the spellings of what its walks find. Resolving a spelling leads
where the walk has led, unless the field holds a NUL: a segment that is taken back by two dots may,
and then every spelling does.
-/

namespace Sandshell

open Sandshell.Path (IsNormal join ofSegments)

namespace Glob

variable {t : Tree} {segment pattern : List Glyph} {segments : List (List Glyph)}
variable {last absolute : Bool} {path path' cwd name s : String} {names here : List String}

/-! ## Where spellings lead -/

/-- The name that spells a move is followed to where the move leads. -/
theorem Moves.follow? (h : Moves t segment last (ofSegments here) name path')
    (hsegment : IsPiece segment) (hhere : ∀ n ∈ here, IsStep n) :
    ∃ there, path' = ofSegments there ∧ (∀ n ∈ there, IsStep n)
      ∧ ∀ rest, Path.follow? here (name :: rest) = Path.follow? there rest := by
  have hdown : ∀ {name}, IsStep name → name ≠ "." → name ≠ ".." →
      ∃ there, join (ofSegments here) name = ofSegments there ∧ (∀ n ∈ there, IsStep n)
        ∧ ∀ rest, Path.follow? here (name :: rest) = Path.follow? there rest := by
    intro name hname hdot hdots
    refine ⟨here ++ [name], ?_, List.forall_mem_append.2 ⟨hhere, List.forall_mem_singleton.2 hname⟩,
      fun rest => ?_⟩
    · exact Path.descend_ofSegments (fun n hn => (hhere n hn).1)
        (List.forall_mem_singleton.2 hname.1)
    · rw [Path.follow?, if_neg (not_or.2 ⟨hname.1, hdot⟩), if_neg hdots]
  cases h with
  | stay => exact ⟨here, rfl, hhere, fun rest => by rw [Path.follow?, if_pos (.inr rfl)]⟩
  | up _ _ hroot =>
    have hne : here ≠ [] := by
      rintro rfl
      exact hroot Path.ofSegments_nil
    refine ⟨here.dropLast, Path.parent_ofSegments fun n hn => (hhere n hn).2,
      fun n hn => hhere n (List.dropLast_subset here hn), fun rest => ?_⟩
    rw [Path.follow?]
    simp [hne]
  | down _ hdot hdots => exact hdown hsegment.isStep_text hdot hdots
  | child _ hname => exact hdown ⟨hname.ne_empty, hname.no_slash⟩ hname.ne_dot hname.ne_dots

/-- The names of a walk lead from where it starts to where it ends. -/
theorem Walk.follow? (h : Walk t path segments names path')
    (hsegments : ∀ segment ∈ segments, IsPiece segment) (hhere : ∀ n ∈ here, IsStep n)
    (hpath : path = ofSegments here) :
    ∃ there, Path.follow? here names = some there ∧ path' = ofSegments there := by
  induction h generalizing here with
  | nil path => exact ⟨here, rfl, hpath⟩
  | cons hmove hwalk ih =>
    obtain ⟨hsegment, hrest⟩ := List.forall_mem_cons.1 hsegments
    subst hpath
    obtain ⟨mid, hmid, hsteps, hfollow⟩ := hmove.follow? hsegment hhere
    obtain ⟨there, hthere, hpath'⟩ := ih hrest hsteps hmid
    exact ⟨there, by rw [hfollow, hthere], hpath'⟩

/-- They are steps: the names of entries, or dots. -/
theorem Walk.isStep (h : Walk t path segments names path')
    (hsegments : ∀ segment ∈ segments, IsPiece segment) : ∀ name ∈ names, IsStep name := by
  induction h with
  | nil => exact List.forall_mem_nil _
  | cons hmove hwalk ih =>
    obtain ⟨hsegment, hrest⟩ := List.forall_mem_cons.1 hsegments
    exact List.forall_mem_cons.2 ⟨hmove.isStep hsegment, ih hrest⟩

/-- There is one for each segment. -/
theorem Walk.length_eq (h : Walk t path segments names path') : names.length = segments.length := by
  induction h with
  | nil => rfl
  | cons hmove hwalk ih => exact congrArg (· + 1) ih

/-- What stands under a name tells that the name has no NUL. -/
theorem nul_not_mem_of_stat {found : Stat} (h : t.stat (join path name) = .ok (some found)) :
    '\x00' ∉ name.toList := by
  intro hmem
  have hnul : Path.hasNul (join path name) = true := by
    rw [Path.hasNul_join, Path.hasNul, Path.hasNul, List.contains_iff_mem.2 hmem, Bool.or_true]
  rw [(Tree.invalid_of_normalize? (Path.normalize?_of_hasNul hnul)).2] at h
  contradiction

/-- A move is spelled with a NUL if the segment has one. -/
theorem Moves.nul_mem_iff (h : Moves t segment last path name path') :
    '\x00' ∈ name.toList ↔ .char '\x00' ∈ segment := by
  have hne : '\x00' ≠ '*' := by decide
  cases h with
  | stay _ htext => rw [← htext, Wildcard.mem_text_iff hne]
  | up _ htext => rw [← htext, Wildcard.mem_text_iff hne]
  | down => exact Wildcard.mem_text_iff hne
  | child _ _ hstat _ hmatches =>
    have hname := nul_not_mem_of_stat hstat
    exact iff_of_false hname fun hsegment => hname (hmatches.mem hsegment)

/-- A NUL in one of them stands in the pattern already. -/
theorem Walk.nul_mem_iff (h : Walk t path segments names path') :
    (∃ name ∈ names, '\x00' ∈ name.toList) ↔ ∃ segment ∈ segments, .char '\x00' ∈ segment := by
  induction h with
  | nil => simp
  | cons hmove hwalk ih =>
    rw [List.exists_mem_cons_iff, List.exists_mem_cons_iff, hmove.nul_mem_iff, ih]

/-- Spelling names adds no NUL. -/
theorem hasNul_spelled (absolute : Bool) (names : List String) :
    Path.hasNul (spelled absolute names) = true ↔ ∃ name ∈ names, '\x00' ∈ name.toList := by
  have hslash : Path.hasNul (if absolute then "/" else "") = false := by cases absolute <;> rfl
  rw [spelled, Path.hasNul_append, hslash, Bool.false_or, Path.hasNul, List.contains_iff_mem]
  constructor
  · exact fun hmem => (Path.mem_ofSegments hmem).resolve_left (by decide)
  · rintro ⟨name, hname, hnul⟩
    rw [Path.toList_ofSegments]
    exact Text.mem_intercalate_of_mem (List.mem_map_of_mem hname) hnul

/-- The names are the segments of what they spell. -/
theorem segments_spelled (h : ∀ name ∈ names, IsStep name) (hne : names ≠ []) :
    Path.segments (spelled absolute names) = (if absolute then [""] else []) ++ names := by
  have hsegments := Path.segments_ofSegments hne fun name hname => (h name hname).2
  cases absolute with
  | false => simpa [spelled] using hsegments
  | true =>
    have happend := Path.segments_append "" (ofSegments names)
    rwa [hsegments, Path.segments_empty] at happend

/-- A slash in front is the only way to spell an absolute path. -/
theorem isAbsolute_spelled (h : ∀ name ∈ names, IsStep name) :
    Path.isAbsolute (spelled absolute names) = absolute := by
  cases absolute with
  | true =>
    rw [spelled, if_pos rfl, Path.isAbsolute_append (by decide)]
    rfl
  | false =>
    have hrelative : spelled false names = ofSegments names := by simp [spelled]
    rw [hrelative]
    cases names with
    | nil => rfl
    | cons name rest =>
      obtain ⟨hname, hslash⟩ := h name List.mem_cons_self
      have hfirst : Path.isAbsolute name = false := by
        rw [Path.isAbsolute, decide_eq_false_iff_not]
        exact fun hhead => hslash (List.mem_of_head? hhead)
      by_cases hrest : rest = []
      · rwa [hrest, Path.ofSegments_singleton]
      · rwa [Path.ofSegments_cons hrest, String.append_assoc, Path.isAbsolute_append hname]

/-- The spelling of a walk is resolved to where the walk leads, if it has no NUL. -/
theorem Walk.resolve? (h : Walk t (if absolute then "" else cwd) segments names path')
    (hsegments : ∀ segment ∈ segments, IsPiece segment) (hne : segments ≠ [])
    (hcwd : IsNormal cwd) :
    Path.resolve? cwd (spelled absolute names)
      = if Path.hasNul (spelled absolute names) then none else some path' := by
  have hsteps := h.isStep hsegments
  have hnames : names ≠ [] := by
    rw [← List.length_pos_iff, h.length_eq]
    exact List.length_pos_iff.2 hne
  obtain ⟨start, hstart, rfl⟩ := Path.isNormal_iff.1 hcwd
  rw [Path.resolve?_eq, isAbsolute_spelled hsteps, segments_spelled hsteps hnames,
    Path.filter_segments_ofSegments hstart]
  refine if_congr Iff.rfl rfl ?_
  cases absolute with
  | true =>
    obtain ⟨there, hthere, rfl⟩ := h.follow? hsegments (List.forall_mem_nil _) rfl
    rw [if_pos rfl, if_pos rfl, List.singleton_append, Path.follow?, if_pos (.inl rfl), hthere]
    rfl
  | false =>
    obtain ⟨there, hthere, rfl⟩ := h.follow? hsegments
      (fun n hn => ⟨(hstart n hn).ne_empty, (hstart n hn).no_slash⟩) rfl
    rw [if_neg Bool.false_ne_true, if_neg Bool.false_ne_true, List.nil_append, hthere]
    rfl

/-! ## Fields -/

/-- Cutting at slashes loses the slashes only. -/
theorem mem_pieces_iff {g : Glyph} :
    (∃ segment ∈ pieces pattern, g ∈ segment) ↔ g ∈ pattern ∧ g ≠ .char '/' := by
  rw [← Wildcard.mem_segments_iff, Wildcard.segments_eq_splitOn]
  refine exists_congr fun segment => and_congr_left fun hg => ?_
  rw [pieces, List.mem_filter, and_iff_left]
  simpa using List.ne_nil_of_mem hg

/-- Pieces of a pattern without two stars in a row are valid. -/
theorem isValid_of_mem_pieces (halone : ¬ [.star, .star] <:+: pattern)
    (h : segment ∈ pieces pattern) : Wildcard.isValid segment = true := by
  have hmem : segment ∈ Wildcard.segments pattern := by
    rw [Wildcard.segments_eq_splitOn]
    exact (List.mem_filter.1 h).1
  exact Wildcard.isValid_of_not_infix fun hstars =>
    halone (hstars.trans (Wildcard.infix_of_mem_segments hmem))

theorem pieces_ne_nil (hstar : .star ∈ pattern) : pieces pattern ≠ [] := by
  obtain ⟨segment, hsegment, -⟩ := mem_pieces_iff.2 ⟨hstar, nofun⟩
  exact List.ne_nil_of_mem hsegment

/-- A spelling that is found is resolved to the path, unless the pattern has a NUL. -/
theorem Finds.resolve? (h : Finds t cwd pattern s path) (hstar : .star ∈ pattern)
    (hcwd : IsNormal cwd) : Path.hasNul s = Path.hasNul (Wildcard.text pattern)
      ∧ Path.resolve? cwd s = if Path.hasNul s then none else some path := by
  obtain ⟨names, hwalk, -, rfl⟩ := h
  constructor
  · rw [Bool.eq_iff_iff, hasNul_spelled, hwalk.nul_mem_iff, mem_pieces_iff, Path.hasNul,
      List.contains_iff_mem, Wildcard.mem_text_iff (by decide)]
    simp
  · exact Walk.resolve? (by simpa using hwalk) (fun _ => isPiece_of_mem_pieces)
      (pieces_ne_nil hstar) hcwd

end Glob

namespace Expand

/-- A field with a wildcard stays as it is where nothing is found. -/
theorem field_apply {W : Type} [Workspace W] {cwd : String} {f : Field} {e : Expanding W}
    {found : List String} {w : W} (hstar : f.hasWildcard = true)
    (hfound : Glob.expand cwd f.glyphs e.workspace = (found, w)) : field cwd f e
      = (.ok (if found = [] then [f.text] else found), { e with workspace := w }) := by
  rw [field, hstar]
  show (Except.ok (if (Glob.expand cwd f.glyphs e.workspace).1.isEmpty then [f.text]
    else (Glob.expand cwd f.glyphs e.workspace).1),
    { e with workspace := (Glob.expand cwd f.glyphs e.workspace).2 }) = _
  rw [hfound]
  cases found <;> rfl

/-- A field with wildcards, no two of them side by side, stands for the spellings of what the walks
of its segments find, in order and each once, and for its own text where they find nothing. A
spelling resolves to the path that it was found at, unless the field holds a NUL; then every
spelling holds it too, and resolves nowhere. -/
theorem field_matches_walks {e : Expanding Tree} {cwd : String} {f : Field}
    (ht : e.workspace.WellFormed) (hcwd : IsNormal cwd) (hstar : f.hasWildcard = true)
    (halone : ¬ [.star, .star] <:+: f.glyphs) :
    ∃ found, field cwd f e = (.ok (if found = [] then [f.text] else found), e)
      ∧ found.Pairwise (· < ·)
      ∧ (∀ s, s ∈ found ↔ ∃ path, Glob.Finds e.workspace cwd f.glyphs s path)
      ∧ ∀ s path, Glob.Finds e.workspace cwd f.glyphs s path →
        (Path.hasNul f.text = false → resolvePath cwd s = .ok path)
        ∧ (Path.hasNul f.text = true → Path.hasNul s = true ∧ ∀ p, resolvePath cwd s ≠ .ok p) := by
  have hmem : .star ∈ f.glyphs := List.contains_iff_mem.1 hstar
  obtain ⟨found, hfound, hsorted, hfinds⟩ := Glob.exists_expand ht hcwd (Glob.pieces_ne_nil hmem)
    fun _ => Glob.isValid_of_mem_pieces halone
  refine ⟨found, field_apply hstar hfound, hsorted, hfinds, fun s path hpath => ?_⟩
  obtain ⟨hnul, hresolve⟩ := hpath.resolve? hmem hcwd
  rw [Field.text, ← hnul]
  simp only [ne_eq, resolvePath_eq_ok_iff, hresolve]
  cases Path.hasNul s <;> simp

/-- A tree with files below the directory in which the shell stands and beside it. -/
def sources : Tree :=
  .ofFiles [("a/x.c", []), ("a/.h.c", []), ("b/y.c", []), ("b/z", []), ("w.c", [])]

/-- A pattern that goes up finds names in sibling directories. -/
theorem field_matches_walks_sources : sources.WellFormed ∧ IsNormal "a"
    ∧ ∃ found, field "a" (.unquoted "../*/*.c") ⟨sources, []⟩ = (.ok found, ⟨sources, []⟩)
      ∧ "../b/y.c" ∈ found ∧ resolvePath "a" "../b/y.c" = .ok "b/y.c" := by
  have hwell : sources.WellFormed := by decide +kernel
  have hcwd : IsNormal "a" := by decide +kernel
  have hfinds : Glob.Finds sources "a" (Field.unquoted "../*/*.c").glyphs "../b/y.c" "b/y.c" := by
    have hpieces : Glob.pieces (Field.unquoted "../*/*.c").glyphs
        = [[.char '.', .char '.'], [.star], [.star, .char '.', .char 'c']] := by decide +kernel
    have hwalk : Glob.Walk sources "a" (Glob.pieces (Field.unquoted "../*/*.c").glyphs)
        ["..", "b", "y.c"] "b/y.c" := by
      have hb : sources.stat "b" = .ok (some ⟨.directory, 0⟩) := by decide +kernel
      have hy : sources.stat "b/y.c" = .ok (some ⟨.file, 0⟩) := by decide +kernel
      rw [hpieces]
      refine .cons (.up (by decide) (by decide +kernel) (by decide))
        (.cons (.child (by decide) ⟨by decide, by decide, by decide, by decide⟩ hb (.inr rfl) ?_)
          (.cons (.child (by decide) ⟨by decide, by decide, by decide, by decide⟩ hy (.inl rfl) ?_)
            (.nil _)))
      · exact Wildcard.matches?_iff.1 (by simp [Wildcard.matches?, Wildcard.matchesFrom])
      · exact Wildcard.matches?_iff.1 (by simp [Wildcard.matches?, Wildcard.matchesFrom])
    exact ⟨_, hwalk, ⟨⟨.file, 0⟩, by decide +kernel⟩, by decide +kernel⟩
  obtain ⟨found, hfield, -, hmem, hleads⟩ :=
    field_matches_walks (e := ⟨sources, []⟩) (f := .unquoted "../*/*.c") hwell hcwd
      (by decide +kernel) (by decide +kernel)
  have hfound : "../b/y.c" ∈ found := (hmem _).2 ⟨_, hfinds⟩
  rw [if_neg (List.ne_nil_of_mem hfound)] at hfield
  exact ⟨hwell, hcwd, found, hfield, hfound, (hleads _ _ hfinds).1 (by decide +kernel)⟩

/-- Not every spelling resolves to the path that it was found at: with a file `b1` in the root, the
field `b*` after a segment with a NUL and two dots that take it back finds `b1`, and is refused. -/
theorem not_forall_resolvePath_of_finds : ¬ ∀ (e : Expanding Tree) (cwd : String) (f : Field),
    e.workspace.WellFormed → IsNormal cwd → f.hasWildcard = true → ¬ [.star, .star] <:+: f.glyphs →
    ∃ found, field cwd f e = (.ok (if found = [] then [f.text] else found), e)
      ∧ ∀ s path, Glob.Finds e.workspace cwd f.glyphs s path →
        s ∈ found ∧ resolvePath cwd s = .ok path := by
  intro h
  let t : Tree := .ofFiles [("b1", [])]
  let f : Field := .unquoted "a\x00/../b*"
  have hfinds : Glob.Finds t "" f.glyphs "a\x00/../b1" "b1" := by
    have hpieces : Glob.pieces f.glyphs
        = [[.char 'a', .char '\x00'], [.char '.', .char '.'], [.char 'b', .star]] := by
      decide +kernel
    have hwalk : Glob.Walk t "" (Glob.pieces f.glyphs) ["a\x00", "..", "b1"] "b1" := by
      have hb : t.stat "b1" = .ok (some ⟨.file, 0⟩) := by decide +kernel
      rw [hpieces]
      refine .cons (.down (by decide) (by decide +kernel) (by decide +kernel))
        (.cons (.up (by decide) (by decide +kernel) (by decide +kernel))
          (.cons (.child (by decide) ⟨by decide, by decide, by decide, by decide⟩ hb (.inl rfl) ?_)
            (.nil _)))
      exact Wildcard.matches?_iff.1 (by simp [Wildcard.matches?, Wildcard.matchesFrom])
    exact ⟨_, hwalk, ⟨⟨.file, 0⟩, by decide +kernel⟩, by decide +kernel⟩
  obtain ⟨found, -, hleads⟩ := h ⟨t, []⟩ "" f (by decide +kernel) (by decide +kernel)
    (by decide +kernel) (by decide +kernel)
  have hrefused : resolvePath "" "a\x00/../b1" ≠ .ok "b1" := by decide +kernel
  exact hrefused (hleads _ _ hfinds).2

end Expand

end Sandshell
