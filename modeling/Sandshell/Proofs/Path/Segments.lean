import Mathlib.Data.List.Basic
import Sandshell.Path

/-!
# Segments and normal paths

Splitting a path at its slashes and joining segments undo each other. A path is normal if dropping
its empty and dot segments leaves it alone; normal paths are exactly the joins of names.
-/

namespace Sandshell

namespace Text

/-- Splitting is that of lists. -/
theorem splitChars_eq_splitOn (separator : Char) (l : List Char) :
    splitChars separator l = l.splitOn separator := by
  induction l with
  | nil => rfl
  | cons c rest ih =>
    rw [List.splitOn_cons_eq_if_modifyHead, splitChars, ih]
    by_cases h : c = separator
    · simp [h]
    · rw [if_neg h, if_neg (by simpa using h)]
      cases hs : rest.splitOn separator with
      | nil => exact absurd hs (List.splitOn_ne_nil separator rest)
      | cons piece pieces => rfl

/-- No piece holds the separator. -/
theorem not_mem_of_mem_splitChars {separator : Char} {l piece : List Char}
    (h : piece ∈ splitChars separator l) : separator ∉ piece := by
  induction l generalizing piece with
  | nil =>
    rw [splitChars, List.mem_singleton] at h
    simp [h]
  | cons c rest ih =>
    rw [splitChars] at h
    by_cases hc : c = separator
    · rw [if_pos hc] at h
      rcases List.mem_cons.1 h with rfl | h
      · simp
      · exact ih h
    · rw [if_neg hc] at h
      -- the character joins the first piece of the rest, which is never missing
      cases hs : splitChars separator rest with
      | nil =>
        rw [hs, List.mem_singleton] at h
        simp [h, Ne.symm hc]
      | cons first pieces =>
        simp only [hs] at h ih
        rcases List.mem_cons.1 h with rfl | h
        · rw [List.mem_cons, not_or]
          exact ⟨Ne.symm hc, ih List.mem_cons_self⟩
        · exact ih (List.mem_cons_of_mem _ h)

/-- Joining the pieces again gives the text. -/
theorem intercalate_splitChars (separator : Char) (l : List Char) :
    [separator].intercalate (splitChars separator l) = l := by
  rw [splitChars_eq_splitOn, List.intercalate_splitOn]

/-- Pieces without separator are split again where they were joined. -/
theorem splitChars_intercalate {separator : Char} {pieces : List (List Char)}
    (hne : pieces ≠ []) (h : ∀ piece ∈ pieces, separator ∉ piece) :
    splitChars separator ([separator].intercalate pieces) = pieces := by
  rw [splitChars_eq_splitOn, List.splitOn_intercalate separator h hne]

/-- A separator splits a text in two. -/
theorem splitChars_append_cons (separator : Char) (l rest : List Char) :
    splitChars separator (l ++ separator :: rest)
      = splitChars separator l ++ splitChars separator rest := by
  simp only [splitChars_eq_splitOn, List.splitOn_append_cons_self]

/-- What stands in a piece stands in the joined text. -/
theorem mem_intercalate_of_mem {separator c : Char} {pieces : List (List Char)}
    {piece : List Char} (h : piece ∈ pieces) (hc : c ∈ piece) :
    c ∈ [separator].intercalate pieces := by
  induction pieces with
  | nil => cases h
  | cons first rest ih =>
    by_cases hr : rest = []
    · subst hr
      rw [List.mem_singleton.1 h] at hc
      rwa [List.intercalate_singleton]
    · rw [List.intercalate_cons_of_ne_nil hr, List.mem_append, List.mem_append]
      rcases List.mem_cons.1 h with rfl | h
      · exact .inl (.inl hc)
      · exact .inr (ih h)

/-- A character of a joined text is the separator or stands in a piece. -/
theorem of_mem_intercalate {separator c : Char} {pieces : List (List Char)}
    (h : c ∈ [separator].intercalate pieces) : c = separator ∨ ∃ piece ∈ pieces, c ∈ piece := by
  induction pieces with
  | nil => simp at h
  | cons first rest ih =>
    by_cases hr : rest = []
    · subst hr
      rw [List.intercalate_singleton] at h
      exact .inr ⟨first, List.mem_cons_self, h⟩
    · rw [List.intercalate_cons_of_ne_nil hr, List.mem_append, List.mem_append] at h
      rcases h with (h | h) | h
      · exact .inr ⟨first, List.mem_cons_self, h⟩
      · exact .inl (List.mem_singleton.1 h)
      · rcases ih h with h | ⟨piece, hpiece, hc⟩
        · exact .inl h
        · exact .inr ⟨piece, List.mem_cons_of_mem _ hpiece, hc⟩

/-- The characters of a piece come from the text that was split. -/
theorem mem_of_mem_splitChars {separator c : Char} {l piece : List Char}
    (h : piece ∈ splitChars separator l) (hc : c ∈ piece) : c ∈ l := by
  rw [← intercalate_splitChars separator l]
  exact mem_intercalate_of_mem h hc

/-- A text that is split in two is its parts with the separator between. -/
theorem toList_of_splitFirst? {separator : Char} {text before after : String}
    (h : splitFirst? separator text = some (before, after)) :
    text.toList = before.toList ++ separator :: after.toList := by
  unfold splitFirst? at h
  dsimp only at h
  split at h
  · cases h
  · next c rest hrest =>
    cases h
    -- what follows the characters that are not the separator begins with it
    have hc : c = separator := by
      have hhead := List.head?_dropWhile_not (fun d => decide (d ≠ separator)) text.toList
      rw [hrest] at hhead
      simpa using hhead
    rw [String.toList_ofList, String.toList_ofList, ← hc, ← hrest, hc, List.takeWhile_append_dropWhile]

end Text

namespace Path

/-- A segment that stands for an entry of a directory: not empty, neither of the two dots, without
slash and NUL. -/
structure IsName (name : String) : Prop where
  ne_empty : name ≠ ""
  ne_dot : name ≠ "."
  ne_dots : name ≠ ".."
  no_slash : '/' ∉ name.toList
  no_nul : '\x00' ∉ name.toList

/-- A path that is its own normal form. -/
def IsNormal (path : String) : Prop :=
  normalize? path = some path

instance (path : String) : Decidable (IsNormal path) :=
  inferInstanceAs (Decidable (_ = _))

/-! ## Splitting and joining -/

/-- No segment has a slash in it. -/
theorem no_slash_of_mem_segments {path name : String} (h : name ∈ segments path) :
    '/' ∉ name.toList := by
  obtain ⟨piece, hpiece, rfl⟩ := List.mem_map.1 h
  rw [String.toList_ofList]
  exact Text.not_mem_of_mem_splitChars hpiece

theorem mem_of_mem_segments {path name : String} {c : Char} (h : name ∈ segments path)
    (hc : c ∈ name.toList) : c ∈ path.toList := by
  obtain ⟨piece, hpiece, rfl⟩ := List.mem_map.1 h
  rw [String.toList_ofList] at hc
  exact Text.mem_of_mem_splitChars hpiece hc

/-- The segments before a slash and those after it. -/
theorem segments_append (path rest : String) :
    segments (path ++ "/" ++ rest) = segments path ++ segments rest := by
  have hchars : (path ++ "/" ++ rest).toList = path.toList ++ '/' :: rest.toList := by
    simp [String.toList_append]
  rw [segments, Text.split, hchars, Text.splitChars_append_cons, List.map_append]
  rfl

theorem toList_ofSegments (names : List String) :
    (ofSegments names).toList = ['/'].intercalate (names.map String.toList) := by
  rw [ofSegments, String.toList_intercalate]
  rfl

/-- The segments of a path make up the path. -/
theorem ofSegments_segments (path : String) : ofSegments (segments path) = path := by
  apply String.toList_injective
  rw [toList_ofSegments, segments, Text.split, List.map_map, String.toList_comp_ofList, List.map_id,
    Text.intercalate_splitChars]

/-- A path made of segments has these segments. -/
theorem segments_ofSegments {names : List String} (hne : names ≠ [])
    (h : ∀ name ∈ names, '/' ∉ name.toList) : segments (ofSegments names) = names := by
  have hpieces : ∀ piece ∈ names.map String.toList, '/' ∉ piece := by
    intro piece hpiece
    obtain ⟨name, hname, rfl⟩ := List.mem_map.1 hpiece
    exact h name hname
  rw [segments, Text.split, toList_ofSegments,
    Text.splitChars_intercalate (by simpa using hne) hpieces, List.map_map,
    String.ofList_comp_toList, List.map_id]

theorem segments_empty : segments "" = [""] := rfl

theorem ofSegments_cons {name : String} {names : List String} (h : names ≠ []) :
    ofSegments (name :: names) = name ++ "/" ++ ofSegments names :=
  String.intercalate_cons_of_ne_nil h

/-- The segments of two paths are joined by one more slash. -/
theorem ofSegments_append {names rest : List String} (hn : names ≠ []) (hr : rest ≠ []) :
    ofSegments (names ++ rest) = ofSegments names ++ "/" ++ ofSegments rest :=
  String.intercalate_append_of_ne_nil hn hr

@[simp] theorem ofSegments_singleton (name : String) : ofSegments [name] = name :=
  String.intercalate_singleton

@[simp] theorem ofSegments_nil : ofSegments [] = "" :=
  String.intercalate_nil

theorem segments_of_no_slash {name : String} (h : '/' ∉ name.toList) : segments name = [name] := by
  have hsegments := segments_ofSegments (List.cons_ne_nil name []) (by simpa using h)
  rwa [ofSegments_singleton] at hsegments

/-- A character of a path is a slash or stands in one of the segments. -/
theorem mem_ofSegments {names : List String} {c : Char} (h : c ∈ (ofSegments names).toList) :
    c = '/' ∨ ∃ name ∈ names, c ∈ name.toList := by
  rw [toList_ofSegments] at h
  rcases Text.of_mem_intercalate h with hc | ⟨piece, hpiece, hc⟩
  · exact .inl hc
  · obtain ⟨name, hname, rfl⟩ := List.mem_map.1 hpiece
    exact .inr ⟨name, hname, hc⟩

/-! ## Names -/

theorem filter_names {names : List String} (h : ∀ name ∈ names, IsName name) :
    names.filter (· ≠ "") = names := by
  rw [List.filter_eq_self]
  intro name hname
  simpa using (h name hname).ne_empty

/-- Splitting a join of names gives the names back, but for the root, which has an empty segment. -/
theorem filter_segments_ofSegments {names : List String} (h : ∀ name ∈ names, IsName name) :
    (segments (ofSegments names)).filter (· ≠ "") = names := by
  by_cases hne : names = []
  · subst hne
    rw [ofSegments_nil, segments_empty]
    rfl
  · rw [segments_ofSegments hne fun name hname => (h name hname).no_slash, filter_names h]

/-! ## Normal paths -/

/-- The names in a path, up to dots. -/
def components (path : String) : List String :=
  (segments path).filter fun name => name ≠ "" ∧ name ≠ "."

/-- Normalizing keeps the names in a path. -/
theorem of_normalize?_eq_some {path normal : String} (h : normalize? path = some normal) :
    (∀ name ∈ components path, IsName name) ∧ normal = ofSegments (components path) := by
  rw [normalize?] at h
  split at h
  · simp at h
  · next hstart =>
    dsimp only at h
    split at h
    · simp at h
    · next hdots =>
      simp only [hasNul, Bool.or_eq_true, List.contains_iff_mem, not_or] at hstart
      rw [List.contains_iff_mem] at hdots
      refine ⟨fun name hname => ?_, (Option.some.inj h).symm⟩
      obtain ⟨hmem, hkept⟩ := List.mem_filter.1 hname
      rw [decide_eq_true_eq] at hkept
      exact ⟨hkept.1, hkept.2, fun heq => hdots (heq ▸ hname), no_slash_of_mem_segments hmem,
        fun hnul => hstart.1 (mem_of_mem_segments hmem hnul)⟩

/-- The names of a path are those of its normal form. -/
theorem filter_segments_of_normalize? {path normal : String} (h : normalize? path = some normal) :
    (segments normal).filter (· ≠ "") = components path := by
  obtain ⟨hnames, rfl⟩ := of_normalize?_eq_some h
  exact filter_segments_ofSegments hnames

/-- What normalizing keeps are names. -/
theorem isName_of_normalize? {path normal : String} (h : normalize? path = some normal) :
    ∃ names, (∀ name ∈ names, IsName name) ∧ normal = ofSegments names :=
  ⟨components path, of_normalize?_eq_some h⟩

/-- Names make no path with a NUL in it. -/
theorem hasNul_ofSegments {names : List String} (h : ∀ name ∈ names, IsName name) :
    hasNul (ofSegments names) = false := by
  rw [hasNul, Bool.eq_false_iff, ne_eq, List.contains_iff_mem]
  intro hmem
  rcases mem_ofSegments hmem with hslash | ⟨name, hname, hc⟩
  · exact absurd hslash (by decide)
  · exact (h name hname).no_nul hc

/-- They make no absolute path either. -/
theorem isAbsolute_ofSegments {names : List String} (h : ∀ name ∈ names, IsName name) :
    isAbsolute (ofSegments names) = false := by
  cases names with
  | nil => rfl
  | cons name rest =>
    have hname := h name List.mem_cons_self
    obtain ⟨c, cs, hcs⟩ := List.exists_cons_of_ne_nil
      (fun hnil => hname.ne_empty (String.toList_eq_nil_iff.1 hnil))
    have hc : c ≠ '/' := fun heq => hname.no_slash (by simp [hcs, heq])
    have hhead : (ofSegments (name :: rest)).toList.head? = some c := by
      by_cases hr : rest = []
      · subst hr
        rw [ofSegments_singleton, hcs]
        rfl
      · rw [ofSegments_cons hr, String.toList_append, String.toList_append, hcs]
        rfl
    rw [isAbsolute, hhead]
    simpa using hc

/-- Names make a normal path. -/
theorem isNormal_ofSegments {names : List String} (h : ∀ name ∈ names, IsName name) :
    IsNormal (ofSegments names) := by
  have hdots : names.filter (fun name => name ≠ ".") = names := by
    rw [List.filter_eq_self]
    intro name hname
    simpa using (h name hname).ne_dot
  have hkept : (segments (ofSegments names)).filter (fun name => name ≠ "" ∧ name ≠ ".") = names := by
    calc (segments (ofSegments names)).filter (fun name => name ≠ "" ∧ name ≠ ".")
        = ((segments (ofSegments names)).filter (· ≠ "")).filter (· ≠ ".") := by
          rw [List.filter_filter]
          simp only [Bool.decide_and, Bool.and_comm]
      _ = names := by rw [filter_segments_ofSegments h, hdots]
  have hup : names.contains ".." = false := by
    rw [Bool.eq_false_iff, ne_eq, List.contains_iff_mem]
    exact fun hmem => (h _ hmem).ne_dots rfl
  rw [IsNormal, normalize?, hasNul_ofSegments h, isAbsolute_ofSegments h]
  simp only [Bool.or_self, Bool.false_eq_true, if_false, hkept, hup]

/-- The normal paths are the joins of names. -/
theorem isNormal_iff {path : String} :
    IsNormal path ↔ ∃ names, (∀ name ∈ names, IsName name) ∧ path = ofSegments names := by
  constructor
  · exact isName_of_normalize?
  · rintro ⟨names, h, rfl⟩
    exact isNormal_ofSegments h

/-- Normalizing gives a normal path. -/
theorem isNormal_of_normalize? {path normal : String} (h : normalize? path = some normal) :
    IsNormal normal :=
  isNormal_iff.2 (isName_of_normalize? h)

theorem segments_ne_nil (path : String) : segments path ≠ [] := by
  rw [segments, Text.split, Text.splitChars_eq_splitOn, ne_eq, List.map_eq_nil_iff]
  exact List.splitOn_ne_nil '/' path.toList

/-- The segments of a normal path but the root are names. -/
theorem IsNormal.isName_segments {path : String} (h : IsNormal path) (hne : path ≠ "") :
    ∀ name ∈ segments path, IsName name := by
  obtain ⟨names, hnames, rfl⟩ := isNormal_iff.1 h
  have hnames_ne : names ≠ [] := fun hnil => hne (hnil ▸ ofSegments_nil)
  rwa [segments_ofSegments hnames_ne fun name hname => (hnames name hname).no_slash]

/-- No empty segment stands in a normal path but the root. -/
theorem IsNormal.empty_not_mem_segments {path : String} (h : IsNormal path) (hne : path ≠ "") :
    "" ∉ segments path :=
  fun hmem => (h.isName_segments hne "" hmem).ne_empty rfl

/-- The root is normal. -/
theorem isNormal_empty : IsNormal "" :=
  isNormal_iff.2 ⟨[], by simp, ofSegments_nil.symm⟩

/-! ## Folding dots -/

/-- Folding keeps what holds of the segments that are not dots. -/
theorem forall_of_follow? {P : String → Prop} {here path names : List String}
    (hhere : ∀ name ∈ here, P name)
    (hpath : ∀ name ∈ path, name ≠ "" → name ≠ "." → name ≠ ".." → P name)
    (h : follow? here path = some names) : ∀ name ∈ names, P name := by
  induction path generalizing here with
  | nil =>
    rw [follow?] at h
    exact Option.some.inj h ▸ hhere
  | cons segment rest ih =>
    rw [List.forall_mem_cons] at hpath
    rw [follow?] at h
    split_ifs at h with hskip hup hroot
    · exact ih hhere hpath.2 h
    · exact ih (fun name hname => hhere name (List.dropLast_subset here hname)) hpath.2 h
    · rw [not_or] at hskip
      refine ih (List.forall_mem_append.2 ⟨hhere, List.forall_mem_singleton.2 ?_⟩) hpath.2 h
      exact hpath.1 hskip.1 hskip.2 hup

/-- Folding segments without slash and NUL onto names gives names. -/
theorem isName_of_follow? {here path names : List String} (hhere : ∀ name ∈ here, IsName name)
    (hpath : ∀ name ∈ path, '/' ∉ name.toList ∧ '\x00' ∉ name.toList)
    (h : follow? here path = some names) : ∀ name ∈ names, IsName name :=
  forall_of_follow? hhere (fun name hname hne hdot hdots =>
    ⟨hne, hdot, hdots, (hpath name hname).1, (hpath name hname).2⟩) h

/-- Names lead further down. -/
theorem follow?_names {here path : List String} (h : ∀ name ∈ path, IsName name) :
    follow? here path = some (here ++ path) := by
  induction path generalizing here with
  | nil => rw [follow?, List.append_nil]
  | cons name rest ih =>
    have hname := h name List.mem_cons_self
    rw [follow?, if_neg (not_or.2 ⟨hname.ne_empty, hname.ne_dot⟩), if_neg hname.ne_dots,
      ih fun n hn => h n (List.mem_cons_of_mem _ hn), List.append_assoc]
    rfl

/-- The segments of a path without NUL hold neither slash nor NUL. -/
theorem segment_of_hasNul {path : String} (h : hasNul path = false) :
    ∀ name ∈ segments path, '/' ∉ name.toList ∧ '\x00' ∉ name.toList := by
  intro name hname
  rw [hasNul, Bool.eq_false_iff, ne_eq, List.contains_iff_mem] at h
  exact ⟨no_slash_of_mem_segments hname, fun hnul => h (mem_of_mem_segments hname hnul)⟩

/-- From a normal directory every path leads to a normal one, if anywhere. -/
theorem isNormal_of_resolve? {cwd path resolved : String} (hcwd : IsNormal cwd)
    (h : resolve? cwd path = some resolved) : IsNormal resolved := by
  unfold resolve? at h
  split at h
  · cases h
  · next hnul =>
    dsimp only at h
    rw [Option.map_eq_some_iff] at h
    obtain ⟨names, hfollow, rfl⟩ := h
    refine isNormal_ofSegments
      (isName_of_follow? ?_ (segment_of_hasNul (by simpa using hnul)) hfollow)
    split
    · exact fun _ hmem => absurd hmem List.not_mem_nil
    · obtain ⟨names', hnames', rfl⟩ := isNormal_iff.1 hcwd
      rwa [filter_segments_ofSegments hnames']

end Path

end Sandshell
