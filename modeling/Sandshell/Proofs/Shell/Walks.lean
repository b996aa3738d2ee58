import Mathlib.Data.List.Sort
import Sandshell.Proofs.Path.Inside
import Sandshell.Proofs.Path.Ways
import Sandshell.Proofs.Pattern.Wildcard
import Sandshell.Proofs.Tree.Answers
import Sandshell.Proofs.Workspace.Terms
import Sandshell.Shell.Expansion.Glob

/-!
# Walks of patterns

A pattern is walked segment by segment. What the matching of file names finds in a tree is what the
walks of the pattern lead to, spelled by the segments and names on the way.
-/

namespace Sandshell

open Sandshell.Path (IsNormal LeadsDown StaysInside join ofSegments)

/-! ## Steps that cannot fail -/

section

variable {σ α β : Type} {s s' : σ} {l : List α}

theorem bind_apply {x : StateM σ α} {f : α → StateM σ β} {a : α} (h : x s = (a, s')) :
    (x >>= f) s = f a s' := by
  simp only [bind, StateT.bind, h]

/-- Steps that leave the state as it is only give their results. -/
theorem mapM_apply {f : α → StateM σ β} {g : α → β} (h : ∀ a ∈ l, f a s = (g a, s)) :
    l.mapM f s = (l.map g, s) := by
  induction l with
  | nil => rfl
  | cons a rest ih =>
    obtain ⟨ha, hrest⟩ := List.forall_mem_cons.1 h
    rw [List.mapM_cons, bind_apply ha, bind_apply (ih hrest)]
    rfl

/-- Tests that leave it only choose. -/
theorem filterM_apply {p : α → StateM σ Bool} {q : α → Bool} (h : ∀ a, p a s = (q a, s)) :
    l.filterM p s = (l.filter q, s) := by
  have haux : ∀ kept, l.filterAuxM p kept s = ((l.filter q).reverse ++ kept, s) := by
    induction l with
    | nil => exact fun kept => rfl
    | cons a rest ih =>
      intro kept
      rw [List.filterAuxM, bind_apply (h a), ih, List.filter_cons]
      cases q a with
      | true => simp
      | false => rfl
  rw [List.filterM, bind_apply (haux []), List.append_nil, List.reverse_reverse]
  rfl

end

/-! ## Segments of paths -/

namespace Path

variable {path name : String} {names : List String}

/-- The parent of a path is made of its front segments. -/
theorem parent_ofSegments (h : ∀ name ∈ names, '/' ∉ name.toList) :
    parent (ofSegments names) = ofSegments names.dropLast := by
  rcases List.eq_nil_or_concat names with rfl | ⟨front, last, rfl⟩
  · rfl
  have hlast : '/' ∉ last.toList := h last (by simp)
  rw [List.concat_eq_append, List.dropLast_concat]
  by_cases hfront : front = []
  · rw [hfront, List.nil_append, ofSegments_singleton, parent_of_no_slash hlast, ofSegments_nil]
  · rw [ofSegments_append hfront (List.cons_ne_nil last []), ofSegments_singleton,
      parent_append hlast]

/-- A path that stays inside is normal but for a NUL in it. -/
theorem StaysInside.isNormal (h : StaysInside path) (hnul : hasNul path = false) :
    IsNormal path := by
  by_cases hroot : path = ""
  · rw [hroot]
    exact isNormal_empty
  rw [← ofSegments_segments path]
  refine isNormal_ofSegments fun name hname => ?_
  obtain ⟨hne, hdot, hdots⟩ := h.segments hroot name hname
  obtain ⟨hslash, hnul⟩ := segment_of_hasNul hnul name hname
  exact ⟨hne, hdot, hdots, hslash, hnul⟩

/-- A NUL comes into a path with a name. -/
theorem hasNul_join (path name : String) :
    hasNul (join path name) = (hasNul path || hasNul name) := by
  by_cases hroot : path = ""
  · rw [hroot, join_empty]
    rfl
  · have hslash : hasNul "/" = false := rfl
    rw [join_of_ne hroot, hasNul_append, hasNul_append, hslash, Bool.or_false]

theorem normalize?_of_hasNul (h : hasNul path = true) : normalize? path = none := by
  rw [normalize?, h]
  rfl

end Path

/-- Entries are listed in the order of their names, none of which comes twice. -/
theorem Tree.pairwise_list (t : Tree) {path : String} {listed : List DirEntry}
    (h : t.list path = .ok listed) : listed.Pairwise (·.name < ·.name) := by
  cases hnormal : Path.normalize? path with
  | none =>
    rw [Tree.list, normalize_eq_error hnormal] at h
    contradiction
  | some p =>
    have hp := Path.isNormal_of_normalize? hnormal
    rw [(alike_of_normalize? hnormal hp t []).2.2.1, list_eq_ok_iff hp] at h
    rw [← h.2]
    exact t.pairwise_entries p

/-- In a well-formed tree the names that a listing shows are those under which something stands. -/
theorem Tree.WellFormed.mem_list_iff {t : Tree} {path name : String} {kind : EntryKind}
    (h : t.WellFormed) (hpath : StaysInside path) :
    (∃ listed, t.list path = .ok listed ∧ ⟨name, kind⟩ ∈ listed)
      ↔ LeadsDown name ∧ ∃ size, t.stat (join path name) = .ok (some ⟨kind, size⟩) := by
  cases hnul : Path.hasNul path with
  | true =>
    -- nothing is listed, and nothing stands there
    have hlist : ∀ listed, t.list path ≠ .ok listed := by
      intro listed
      rw [Tree.list, normalize_eq_error (Path.normalize?_of_hasNul hnul)]
      exact fun h => by cases h
    have hstat : t.stat (join path name) = .error (.invalidPath (join path name)) :=
      (invalid_of_normalize?
        (Path.normalize?_of_hasNul (by rw [Path.hasNul_join, hnul, Bool.true_or]))).2
    simp [hlist, hstat]
  | false =>
    have hnormal := hpath.isNormal hnul
    rw [← (h.isListing_entries hnormal).mem_iff]
    simp only [list_eq_ok_iff hnormal]
    constructor
    · rintro ⟨_, ⟨-, rfl⟩, hmem⟩
      exact hmem
    · intro hmem
      obtain ⟨hname, hkind⟩ := h.of_mem_entries hmem
      have hparent := h.isDirectory_parent_of_kind? hkind
      rw [Path.parent_join hname.no_slash] at hparent
      exact ⟨_, ⟨hparent, rfl⟩, hmem⟩

namespace Glob

variable {t : Tree} {segment : List Glyph} {segments : List (List Glyph)} {last absolute : Bool}
variable {path path' start name s : String} {names here : List String} {place place' : Place}
variable {places : List Place}

/-! ## Moves -/

/-- How a segment moves from a path, and the name that spells the move: a segment without a star
moves lexically, one with a star to what stands under a matching name, which is a directory if more
segments follow. -/
inductive Moves (t : Tree) (segment : List Glyph) (last : Bool) (path : String) :
    String → String → Prop
  | stay (hplain : .star ∉ segment) (htext : Wildcard.text segment = ".") :
    Moves t segment last path "." path
  | up (hplain : .star ∉ segment) (htext : Wildcard.text segment = "..") (hroot : path ≠ "") :
    Moves t segment last path ".." (Path.parent path)
  | down (hplain : .star ∉ segment) (hdot : Wildcard.text segment ≠ ".")
    (hdots : Wildcard.text segment ≠ "..") :
    Moves t segment last path (Wildcard.text segment) (join path (Wildcard.text segment))
  | child {name : String} {kind : EntryKind} {size : Nat} (hstar : .star ∈ segment)
    (hname : LeadsDown name) (hstat : t.stat (join path name) = .ok (some ⟨kind, size⟩))
    (hkind : last = true ∨ kind = .directory) (hmatches : Wildcard.Matches segment name) :
    Moves t segment last path name (join path name)

/-- The segments of a pattern lead from a path to another one, spelled by the names. -/
inductive Walk (t : Tree) : String → List (List Glyph) → List String → String → Prop
  | nil (path : String) : Walk t path [] [] path
  | cons {path mid path' name : String} {segment : List Glyph} {rest : List (List Glyph)}
    {names : List String} (hmove : Moves t segment rest.isEmpty path name mid)
    (hwalk : Walk t mid rest names path') : Walk t path (segment :: rest) (name :: names) path'

/-- A segment as a pattern is cut: not empty and without a slash. -/
def IsPiece (segment : List Glyph) : Prop :=
  segment ≠ [] ∧ .char '/' ∉ segment

/-- A name that spells a move: not empty and without a slash. -/
def IsStep (name : String) : Prop :=
  name ≠ "" ∧ '/' ∉ name.toList

/-- A piece without a star is a step by its own text. -/
theorem IsPiece.isStep_text (h : IsPiece segment) : IsStep (Wildcard.text segment) := by
  constructor
  · rw [Wildcard.text, ne_eq, ← String.toList_eq_nil_iff, String.toList_ofList, List.map_eq_nil_iff]
    exact h.1
  · rw [Wildcard.mem_text_iff (by decide)]
    exact h.2

theorem IsStep.leadsDown (h : IsStep name) (hdot : name ≠ ".") (hdots : name ≠ "..") :
    LeadsDown name :=
  ⟨h.1, hdot, hdots, h.2⟩

/-- Whatever a segment leads to is a step. -/
theorem Moves.isStep (h : Moves t segment last path name path') (hsegment : IsPiece segment) :
    IsStep name := by
  cases h with
  | stay => exact ⟨by decide, by decide⟩
  | up => exact ⟨by decide, by decide⟩
  | down => exact hsegment.isStep_text
  | child hstar hname => exact ⟨hname.ne_empty, hname.no_slash⟩

/-- Inside it leads to places inside. -/
theorem Moves.staysInside (h : Moves t segment last path name path') (hsegment : IsPiece segment)
    (hpath : StaysInside path) : StaysInside path' := by
  cases h with
  | stay => exact hpath
  | up => exact hpath.parent
  | down hplain hdot hdots => exact hpath.join (hsegment.isStep_text.leadsDown hdot hdots)
  | child hstar hname => exact hpath.join hname

/-! ## Spelling -/

/-- How names are spelled from the working directory, or from the root. -/
def spelled (absolute : Bool) (names : List String) : String :=
  (if absolute then "/" else "") ++ ofSegments names

/-- No step ends in a slash. -/
theorem getLast?_ofSegments_ne (h : ∀ name ∈ names, IsStep name) :
    (ofSegments names).toList.getLast? ≠ some '/' := by
  rcases List.eq_nil_or_concat names with rfl | ⟨front, last, rfl⟩
  · exact nofun
  rw [List.concat_eq_append] at h ⊢
  obtain ⟨hne, hslash⟩ := h last (by simp)
  have hlast : last.toList.getLast? ≠ some '/' := fun hmem => hslash (List.mem_of_getLast? hmem)
  by_cases hfront : front = []
  · rwa [hfront, List.nil_append, Path.ofSegments_singleton]
  · have hnil : last.toList ≠ [] := fun hnil => hne (String.toList_eq_nil_iff.1 hnil)
    rw [Path.ofSegments_append hfront (List.cons_ne_nil last []), Path.ofSegments_singleton,
      String.toList_append, List.getLast?_append_of_ne_nil _ hnil]
    exact hlast

theorem ofSegments_ne_empty (h : ∀ name ∈ names, IsStep name) (hne : names ≠ []) :
    ofSegments names ≠ "" := by
  intro hempty
  have hsegments := Path.segments_ofSegments hne fun name hname => (h name hname).2
  rw [hempty, Path.segments_empty] at hsegments
  exact (h "" (by simp [← hsegments])).1 rfl

/-- A step is added to a spelling behind a slash. -/
theorem joinSpelling_spelled (h : ∀ name ∈ names, IsStep name) (name : String) :
    joinSpelling (spelled absolute names) name = spelled absolute (names ++ [name]) := by
  by_cases hne : names = []
  · subst hne
    cases absolute <;> simp [joinSpelling, spelled]
  have hlast : (spelled absolute names).toList.getLast? ≠ some '/' := by
    rw [spelled, String.toList_append, List.getLast?_append_of_ne_nil]
    · exact getLast?_ofSegments_ne h
    · exact fun hnil => ofSegments_ne_empty h hne (String.toList_eq_nil_iff.1 hnil)
  have hempty : spelled absolute names ≠ "" := by
    intro hempty
    rw [spelled, ← String.toList_eq_nil_iff, String.toList_append, List.append_eq_nil_iff] at hempty
    exact ofSegments_ne_empty h hne (String.toList_eq_nil_iff.1 hempty.2)
  rw [joinSpelling, if_neg (by simp [hempty, hlast]), spelled, spelled,
    Path.ofSegments_append hne (List.cons_ne_nil name []), Path.ofSegments_singleton]
  simp only [String.append_assoc]

/-- Different steps are spelled differently. -/
theorem spelled_inj {names' : List String} (h : ∀ name ∈ names, IsStep name)
    (h' : ∀ name ∈ names', IsStep name) (heq : spelled absolute names = spelled absolute names') :
    names = names' := by
  have hof : ofSegments names = ofSegments names' := by
    rw [spelled, spelled] at heq
    simpa using heq
  by_cases hne : names = []
  · subst hne
    by_contra hne'
    exact ofSegments_ne_empty h' (Ne.symm hne') hof.symm
  by_cases hne' : names' = []
  · subst hne'
    exact absurd hof (ofSegments_ne_empty h hne)
  rw [← Path.segments_ofSegments hne fun name hname => (h name hname).2, hof,
    Path.segments_ofSegments hne' fun name hname => (h' name hname).2]

/-! ## Moves of the matching -/

/-- The children that are found in a tree. -/
def childrenIn (t : Tree) (segment : List Glyph) (last : Bool) (place : Place) : List Place :=
  ((t.list place.path).toOption.getD []).filterMap fun entry =>
    if Wildcard.matches? segment entry.name && (last || entry.kind = .directory) then
      some ⟨joinSpelling place.spelling entry.name, join place.path entry.name⟩
    else none

/-- The places that a segment moves to. -/
def movesIn (t : Tree) (segment : List Glyph) (last : Bool) (place : Place) : List Place :=
  if segment.contains .star then childrenIn t segment last place
  else (step? (Wildcard.text segment) place).toList

/-- Listing leaves the tree as it is. -/
theorem children_apply (segment : List Glyph) (last : Bool) (place : Place) :
    children segment last place t = (childrenIn t segment last place, t) := by
  have hlist : (Workspace.list place.path).run t = (t.list place.path, t) := rfl
  rw [children, bind_apply hlist, childrenIn]
  cases t.list place.path <;> rfl

/-- One segment leads from every place to all that it matches. -/
theorem advance_apply (hvalid : Wildcard.isValid segment = true) (last : Bool)
    (places : List Place) :
    advance segment last places t = (places.flatMap (movesIn t segment last), t) := by
  rw [advance]
  cases hstar : segment.contains .star with
  | false =>
    have hmoves : movesIn t segment last
        = fun place => (step? (Wildcard.text segment) place).toList := by
      funext place
      rw [movesIn, hstar]
      rfl
    rw [hmoves, ← List.filterMap_eq_flatMap_toList]
    rfl
  | true =>
    have hmoves : movesIn t segment last = childrenIn t segment last := by
      funext place
      rw [movesIn, hstar]
      rfl
    have hchildren := mapM_apply (s := t) (l := places) fun place _ =>
      children_apply segment last place
    rw [hvalid, hmoves, List.flatMap_def]
    exact bind_apply hchildren

/-- A star leads to the entries whose names match. -/
theorem mem_childrenIn_iff (h : t.WellFormed) (hpath : StaysInside place.path)
    (hstar : .star ∈ segment) : place' ∈ childrenIn t segment last place
      ↔ ∃ name path', Moves t segment last place.path name path'
        ∧ place' = ⟨joinSpelling place.spelling name, path'⟩ := by
  have hlisted : ∀ entry, entry ∈ (t.list place.path).toOption.getD []
      ↔ ∃ listed, t.list place.path = .ok listed ∧ entry ∈ listed := by
    intro entry
    cases t.list place.path <;> simp [Except.toOption]
  simp only [childrenIn, List.mem_filterMap, Option.ite_none_right_eq_some, Bool.and_eq_true,
    Bool.or_eq_true, decide_eq_true_eq, Wildcard.matches?_iff, hlisted]
  constructor
  · rintro ⟨⟨name, kind⟩, hentry, ⟨hmatches, hkind⟩, heq⟩
    obtain ⟨hname, size, hstat⟩ := (h.mem_list_iff hpath).1 hentry
    exact ⟨name, _, .child hstar hname hstat hkind hmatches, (Option.some.inj heq).symm⟩
  · rintro ⟨name, path', hmoves, rfl⟩
    cases hmoves with
    | stay hplain => exact absurd hstar hplain
    | up hplain => exact absurd hstar hplain
    | down hplain => exact absurd hstar hplain
    | child _ hname hstat hkind hmatches =>
      exact ⟨⟨name, _⟩, (h.mem_list_iff hpath).2 ⟨hname, _, hstat⟩, ⟨hmatches, hkind⟩, rfl⟩

/-- A segment without one leads to where its text does. -/
theorem mem_step?_iff (hplain : .star ∉ segment) :
    place' ∈ step? (Wildcard.text segment) place
      ↔ ∃ name path', Moves t segment last place.path name path'
        ∧ place' = ⟨joinSpelling place.spelling name, path'⟩ := by
  rw [step?, Option.mem_def]
  constructor
  · intro hstep
    split_ifs at hstep with hdot hdots hroot
    · exact ⟨_, _, .stay hplain hdot, by rw [← Option.some.inj hstep, hdot]⟩
    · exact ⟨_, _, .up hplain hdots hroot, by rw [← Option.some.inj hstep, hdots]⟩
    · exact ⟨_, _, .down hplain hdot hdots, (Option.some.inj hstep).symm⟩
  · rintro ⟨name, path', hmoves, rfl⟩
    cases hmoves with
    | stay _ htext => simp [htext]
    | up _ htext hroot => simp [htext, hroot]
    | down _ hdot hdots => simp [hdot, hdots]
    | child hstar => exact absurd hstar hplain

/-- The places that a segment moves to are spelled by the moves. -/
theorem mem_movesIn_iff (h : t.WellFormed) (hpath : StaysInside place.path) :
    place' ∈ movesIn t segment last place
      ↔ ∃ name path', Moves t segment last place.path name path'
        ∧ place' = ⟨joinSpelling place.spelling name, path'⟩ := by
  rw [movesIn]
  split
  · next hstar => exact mem_childrenIn_iff h hpath (List.contains_iff_mem.1 hstar)
  · next hplain =>
    rw [Option.mem_toList]
    exact mem_step?_iff fun hstar => hplain (List.contains_iff_mem.2 hstar)

theorem joinSpelling_inj {name' : String} (h : joinSpelling s name = joinSpelling s name') :
    name = name' := by
  rw [joinSpelling, joinSpelling] at h
  split at h <;> simpa using h

/-- No place is spelled twice. -/
theorem pairwise_movesIn (t : Tree) (segment : List Glyph) (last : Bool) (place : Place) :
    (movesIn t segment last place).Pairwise (·.spelling ≠ ·.spelling) := by
  rw [movesIn]
  split
  · have hlisted : ((t.list place.path).toOption.getD []).Pairwise (·.name < ·.name) := by
      cases hlist : t.list place.path with
      | error e => exact List.Pairwise.nil
      | ok listed => exact t.pairwise_list hlist
    refine hlisted.filterMap _ fun entry entry' hlt child hchild child' hchild' heq => ?_
    rw [Option.ite_none_right_eq_some] at hchild hchild'
    obtain ⟨-, heq₁⟩ := hchild
    obtain ⟨-, heq₂⟩ := hchild'
    cases heq₁
    cases heq₂
    exact hlt.ne (joinSpelling_inj heq)
  · cases step? (Wildcard.text segment) place <;> simp

/-! ## What is found -/

/-- Places that show what is reached: each path once for each way of spelling it. -/
structure Shows (absolute : Bool) (places : List Place) (reached : List String → String → Prop) :
    Prop where
  steps : ∀ {names path}, reached names path → ∀ name ∈ names, IsStep name
  inside : ∀ {names path}, reached names path → StaysInside path
  mem_iff : ∀ place, place ∈ places
    ↔ ∃ names, reached names place.path ∧ place.spelling = spelled absolute names
  distinct : places.Pairwise (·.spelling ≠ ·.spelling)

namespace Shows

variable {reached : List String → String → Prop}

/-- Places that show what is reached do so one segment further. -/
theorem advance (hshows : Shows absolute places reached) (h : t.WellFormed)
    (hsegment : IsPiece segment) (last : Bool) :
    Shows absolute (places.flatMap (movesIn t segment last)) fun names path =>
      ∃ before here name, reached before here ∧ Moves t segment last here name path
        ∧ names = before ++ [name] where
  steps := by
    rintro _ path ⟨before, here, name, hreached, hmove, rfl⟩
    exact List.forall_mem_append.2
      ⟨hshows.steps hreached, List.forall_mem_singleton.2 (hmove.isStep hsegment)⟩
  inside := by
    rintro _ path ⟨before, here, name, hreached, hmove, rfl⟩
    exact hmove.staysInside hsegment (hshows.inside hreached)
  mem_iff place := by
    rw [List.mem_flatMap]
    constructor
    · rintro ⟨from', hfrom, hplace⟩
      obtain ⟨before, hreached, hspelled⟩ := (hshows.mem_iff from').1 hfrom
      obtain ⟨name, path', hmove, rfl⟩ := (mem_movesIn_iff h (hshows.inside hreached)).1 hplace
      refine ⟨_, ⟨before, _, name, hreached, hmove, rfl⟩, ?_⟩
      rw [hspelled, joinSpelling_spelled (hshows.steps hreached)]
    · rintro ⟨_, ⟨before, here, name, hreached, hmove, rfl⟩, hspelled⟩
      refine ⟨⟨spelled absolute before, here⟩, (hshows.mem_iff _).2 ⟨before, hreached, rfl⟩, ?_⟩
      rw [mem_movesIn_iff h (hshows.inside hreached)]
      refine ⟨name, _, hmove, ?_⟩
      rw [joinSpelling_spelled (hshows.steps hreached), ← hspelled]
  distinct := by
    rw [List.pairwise_flatMap]
    refine ⟨fun place _ => pairwise_movesIn t segment last place, ?_⟩
    refine hshows.distinct.imp_of_mem fun {from₁ from₂} hmem₁ hmem₂ hne => ?_
    intro place₁ hplace₁ place₂ hplace₂ heq
    apply hne
    obtain ⟨before₁, hreached₁, hspelled₁⟩ := (hshows.mem_iff from₁).1 hmem₁
    obtain ⟨before₂, hreached₂, hspelled₂⟩ := (hshows.mem_iff from₂).1 hmem₂
    obtain ⟨name₁, path₁, hmove₁, rfl⟩ := (mem_movesIn_iff h (hshows.inside hreached₁)).1 hplace₁
    obtain ⟨name₂, path₂, hmove₂, rfl⟩ := (mem_movesIn_iff h (hshows.inside hreached₂)).1 hplace₂
    have hsteps₁ := hshows.steps hreached₁
    have hsteps₂ := hshows.steps hreached₂
    dsimp only at heq
    rw [hspelled₁, hspelled₂, joinSpelling_spelled hsteps₁, joinSpelling_spelled hsteps₂] at heq
    -- names that are spelled alike are the same up to the last one
    have hnames := spelled_inj
      (List.forall_mem_append.2 ⟨hsteps₁, List.forall_mem_singleton.2 (hmove₁.isStep hsegment)⟩)
      (List.forall_mem_append.2 ⟨hsteps₂, List.forall_mem_singleton.2 (hmove₂.isStep hsegment)⟩) heq
    rw [hspelled₁, hspelled₂, (List.append_inj' hnames rfl).1]

/-- What is reached may be put in other words. -/
theorem congr {reached' : List String → String → Prop} (hshows : Shows absolute places reached)
    (h : ∀ names path, reached names path ↔ reached' names path) :
    Shows absolute places reached' := by
  have heq : reached = reached' := funext fun names => funext fun path => propext (h names path)
  exact heq ▸ hshows

end Shows

theorem walk_nil {W : Type} [Workspace W] (segments : List (List Glyph)) (w : W) :
    walk [] segments w = ([], w) := by
  cases segments <;> rfl

/-- A walk goes on from all places that the first segment leads to. -/
theorem walk_cons_apply (hvalid : Wildcard.isValid segment = true) (rest : List (List Glyph))
    (places : List Place) : walk places (segment :: rest) t
      = walk (places.flatMap (movesIn t segment rest.isEmpty)) rest t := by
  rw [walk]
  split
  · next hempty =>
    -- no place is left, and none is found from here on
    rw [List.isEmpty_iff.1 hempty, List.flatMap_nil, walk_nil]
    rfl
  · exact bind_apply (advance_apply hvalid rest.isEmpty places)

/-- The places at the end of a pattern show what its walks reach. -/
theorem Shows.walk {reached : List String → String → Prop} (hshows : Shows absolute places reached)
    (h : t.WellFormed)
    (hsegments : ∀ segment ∈ segments, IsPiece segment ∧ Wildcard.isValid segment) :
    ∃ places', Glob.walk places segments t = (places', t) ∧ Shows absolute places' fun names path =>
      ∃ before here after, reached before here ∧ Walk t here segments after path
        ∧ names = before ++ after := by
  -- what has been reached stays general: with each segment it goes on by a move
  induction segments generalizing places reached with
  | nil =>
    refine ⟨places, rfl, hshows.congr fun names path => ⟨fun hreached => ?_, ?_⟩⟩
    · exact ⟨names, path, [], hreached, .nil path, (List.append_nil names).symm⟩
    · rintro ⟨before, here, after, hreached, hwalk, rfl⟩
      cases hwalk
      rwa [List.append_nil]
  | cons segment rest ih =>
    obtain ⟨⟨hsegment, hvalid⟩, hrest⟩ := List.forall_mem_cons.1 hsegments
    obtain ⟨places', hplaces', hshows'⟩ := ih (hshows.advance h hsegment rest.isEmpty) hrest
    refine ⟨places', (walk_cons_apply hvalid rest places).trans hplaces', ?_⟩
    refine hshows'.congr fun names path => ⟨?_, ?_⟩
    · rintro ⟨_, mid, after, ⟨before, here, name, hreached, hmove, rfl⟩, hwalk, rfl⟩
      exact ⟨before, here, name :: after, hreached, .cons hmove hwalk, List.append_assoc _ _ _⟩
    · rintro ⟨before, here, after, hreached, hwalk, rfl⟩
      cases hwalk with
      | cons hmove hwalk =>
        exact ⟨_, _, _, ⟨before, here, _, hreached, hmove, rfl⟩, hwalk, by simp⟩

/-- Before the first segment the start is reached, without names. -/
theorem shows_start (absolute : Bool) (hstart : StaysInside start) :
    Shows absolute [⟨spelled absolute [], start⟩] fun names path => names = [] ∧ path = start where
  steps := by
    rintro _ path ⟨rfl, -⟩
    exact List.forall_mem_nil _
  inside := by
    rintro names _ ⟨-, rfl⟩
    exact hstart
  mem_iff place := by
    rw [List.mem_singleton]
    constructor
    · rintro rfl
      exact ⟨[], ⟨rfl, rfl⟩, rfl⟩
    · rintro ⟨_, ⟨rfl, hpath⟩, hspelling⟩
      cases place
      simp_all
  distinct := List.pairwise_singleton _ _

/-! ## Patterns -/

/-- The segments of a pattern that are not empty. -/
def pieces (pattern : List Glyph) : List (List Glyph) :=
  (pattern.splitOn (.char '/')).filter (· ≠ [])

/-- The walks of a pattern lead from the working directory, or from the root after a leading slash,
to what stands at a path. -/
def Finds (t : Tree) (cwd : String) (pattern : List Glyph) (spelling path : String) : Prop :=
  let absolute := pattern.head? = some (.char '/')
  ∃ names, Walk t (if absolute then "" else cwd) (pieces pattern) names path
    ∧ (∃ found, t.stat path = .ok (some found)) ∧ spelling = spelled absolute names

/-- Something stands at the place in a tree. -/
def existsIn (t : Tree) (place : Place) : Bool :=
  match t.stat place.path with
  | .ok (some _) => true
  | _ => false

theorem exists?_apply (place : Place) : exists? place t = (existsIn t place, t) := by
  have hstat : (Workspace.stat place.path).run t = (t.stat place.path, t) := rfl
  rw [exists?, bind_apply hstat, existsIn]
  cases t.stat place.path with
  | error e => rfl
  | ok found => cases found <;> rfl

/-- A place exists if something stands there. -/
theorem existsIn_iff : existsIn t place = true ↔ ∃ found, t.stat place.path = .ok (some found) := by
  rw [existsIn]
  cases t.stat place.path with
  | error e => simp
  | ok found => cases found <;> simp

/-- Names without repetition are strictly sorted. -/
theorem pairwise_lt_mergeSort {names : List String} (h : names.Nodup) :
    (names.mergeSort (· ≤ ·)).Pairwise (· < ·) := by
  have hsorted : (names.mergeSort (· ≤ ·)).Pairwise (· ≤ ·) :=
    List.pairwise_mergeSort' (· ≤ ·) names
  have hdistinct : (names.mergeSort (· ≤ ·)).Nodup := (List.mergeSort_perm names _).nodup_iff.2 h
  exact (hsorted.and hdistinct).imp fun ⟨hle, hne⟩ => lt_of_le_of_ne hle hne

theorem isPiece_of_mem_pieces {pattern : List Glyph} (h : segment ∈ pieces pattern) :
    IsPiece segment := by
  obtain ⟨hmem, hne⟩ := List.mem_filter.1 h
  rw [← Wildcard.segments_eq_splitOn] at hmem
  exact ⟨by simpa using hne, Wildcard.no_slash_of_mem_segments hmem⟩

/-- The place where the walks of a pattern start. -/
def startOf (cwd : String) (pattern : List Glyph) : Place :=
  if pattern.head? = some (.char '/') then ⟨"/", ""⟩ else ⟨"", cwd⟩

/-- Expanding is walking, keeping what exists and sorting the spellings. -/
theorem expand_eq {W : Type} [Workspace W] (cwd : String) (pattern : List Glyph) :
    (expand cwd pattern : StateM W (List String)) = if pieces pattern = [] then return [] else do
      let found ← (← walk [startOf cwd pattern] (pieces pattern)).filterM exists?
      return (found.map (·.spelling)).mergeSort (· ≤ ·) := by
  have hsegments : (Wildcard.segments pattern).filter (!·.isEmpty) = pieces pattern := by
    rw [Wildcard.segments_eq_splitOn, pieces]
    exact List.filter_congr fun segment _ => by cases segment <;> rfl
  rw [expand, hsegments]
  cases pieces pattern with
  | nil => rfl
  | cons segment rest => rfl

/-- Matching file names finds what the walks of the pattern find, in order. -/
theorem exists_expand {cwd : String} {pattern : List Glyph} (h : t.WellFormed) (hcwd : IsNormal cwd)
    (hne : pieces pattern ≠ []) (hvalid : ∀ segment ∈ pieces pattern, Wildcard.isValid segment) :
    ∃ found, expand cwd pattern t = (found, t) ∧ found.Pairwise (· < ·)
      ∧ ∀ s, s ∈ found ↔ ∃ path, Finds t cwd pattern s path := by
  have hstart : StaysInside (if pattern.head? = some (.char '/') then "" else cwd) := by
    split
    · exact Path.staysInside_empty
    · exact hcwd.staysInside
  have hplace : startOf cwd pattern = ⟨spelled (pattern.head? = some (.char '/')) [],
      if pattern.head? = some (.char '/') then "" else cwd⟩ := by
    rw [startOf]
    split
    · next hslash => simp [hslash, spelled]
    · next hslash => simp [hslash, spelled]
  have hpieces : ∀ segment ∈ pieces pattern, IsPiece segment ∧ Wildcard.isValid segment :=
    fun segment hsegment => ⟨isPiece_of_mem_pieces hsegment, hvalid segment hsegment⟩
  obtain ⟨places, hplaces, hshows⟩ :=
    (shows_start (pattern.head? = some (.char '/')) hstart).walk h hpieces
  have hexists := filterM_apply (s := t) (l := places) exists?_apply
  refine ⟨((places.filter (existsIn t)).map (·.spelling)).mergeSort (· ≤ ·), ?_, ?_, fun s => ?_⟩
  · rw [expand_eq, if_neg hne, hplace, bind_apply hplaces, bind_apply hexists]
    rfl
  · exact pairwise_lt_mergeSort (List.pairwise_map.2 (hshows.distinct.filter _))
  · rw [List.mem_mergeSort, List.mem_map]
    constructor
    · rintro ⟨place, hplace, rfl⟩
      obtain ⟨hmem, hfound⟩ := List.mem_filter.1 hplace
      obtain ⟨_, ⟨_, _, _, ⟨rfl, rfl⟩, hwalk, rfl⟩, hspelling⟩ := (hshows.mem_iff place).1 hmem
      exact ⟨place.path, _, hwalk, existsIn_iff.1 hfound, hspelling⟩
    · rintro ⟨path, names, hwalk, hfound, rfl⟩
      refine ⟨⟨_, path⟩, List.mem_filter.2 ⟨(hshows.mem_iff _).2 ?_, existsIn_iff.2 hfound⟩, rfl⟩
      exact ⟨names, ⟨[], _, names, ⟨rfl, rfl⟩, hwalk, rfl⟩, rfl⟩

/-- A pattern of one segment finds what stands in the working directory under a matching name. -/
theorem finds_of_isPiece {cwd : String} {pattern : List Glyph} {found : Stat}
    (hpattern : IsPiece pattern) (hstar : .star ∈ pattern) (hname : LeadsDown name)
    (hstat : t.stat (join cwd name) = .ok (some found)) (hmatches : Wildcard.Matches pattern name) :
    Finds t cwd pattern name (join cwd name) := by
  have hsplit : pattern.splitOn (.char '/') = [pattern] := by
    have hjoin := List.splitOn_intercalate (.char '/')
      (fun piece hpiece => List.mem_singleton.1 hpiece ▸ hpattern.2) (List.cons_ne_nil pattern [])
    rwa [List.intercalate_singleton] at hjoin
  have hpieces : pieces pattern = [pattern] := by
    rw [pieces, hsplit, List.filter_cons_of_pos (by simpa using hpattern.1), List.filter_nil]
  have hrelative : pattern.head? ≠ some (.char '/') :=
    fun hhead => hpattern.2 (List.mem_of_head? hhead)
  refine ⟨[name], ?_, ⟨found, hstat⟩, by simp [spelled, hrelative]⟩
  rw [if_neg hrelative, hpieces]
  exact .cons (.child hstar hname hstat (.inl rfl) hmatches) (.nil _)

end Glob

end Sandshell
