import Mathlib.Data.List.TakeWhile
import Sandshell.Guest.Descriptor
import Sandshell.Proofs.Path.Segments

/-!
# Paths below directories

A path lies below another one if it goes on after it with a slash. The parent of a path is the
nearest path that it lies below.
-/

namespace Sandshell.Path

/-- Goes on after `directory` with a slash. -/
def Below (directory path : String) : Prop :=
  (directory ++ "/").toList <+: path.toList

instance (directory path : String) : Decidable (Below directory path) :=
  inferInstanceAs (Decidable (_ <+: _))

variable {d e p q name : String}

/-- Below a directory are the paths that go on after its name and a slash. -/
theorem below_iff : Below d p ↔ ∃ rest, p = d ++ "/" ++ rest := by
  constructor
  · rintro ⟨rest, hrest⟩
    refine ⟨String.ofList rest, String.toList_injective ?_⟩
    rw [String.toList_append, String.toList_ofList, hrest]
  · rintro ⟨rest, rfl⟩
    exact ⟨rest.toList, (String.toList_append).symm⟩

theorem below_append (d rest : String) : Below d (d ++ "/" ++ rest) :=
  below_iff.2 ⟨rest, rfl⟩

/-- What is below something below is below. -/
theorem Below.trans (hde : Below d e) (hep : Below e p) : Below d p := by
  obtain ⟨rest, rfl⟩ := below_iff.1 hde
  obtain ⟨rest', rfl⟩ := below_iff.1 hep
  exact below_iff.2 ⟨rest ++ "/" ++ rest', by simp only [String.append_assoc]⟩

/-- Paths get longer on the way down. -/
theorem Below.length_lt (h : Below d p) : d.toList.length < p.toList.length := by
  have hle := h.length_le
  rw [String.toList_append, List.length_append] at hle
  exact Nat.lt_of_succ_le hle

/-- Nothing is below itself. -/
theorem Below.irrefl (p : String) : ¬ Below p p :=
  fun h => absurd h.length_lt (Nat.lt_irrefl _)

/-- The root is not below anything. -/
theorem Below.ne_empty (h : Below d p) : p ≠ "" := by
  rintro rfl
  exact absurd h.length_lt (Nat.not_lt_zero _)

/-- What a normal path lies below is normal. -/
theorem Below.isNormal (h : Below d p) (hp : IsNormal p) : IsNormal d := by
  obtain ⟨rest, rfl⟩ := below_iff.1 h
  obtain ⟨names, hnames, hpath⟩ := isNormal_iff.1 hp
  have hne : names ≠ [] := by
    rintro rfl
    exact h.ne_empty hpath
  have hsegments : segments d ++ segments rest = names := by
    rw [← segments_append, hpath, segments_ofSegments hne fun name hname => (hnames name hname).no_slash]
  rw [← ofSegments_segments d]
  apply isNormal_ofSegments
  intro name hname
  exact hnames name (hsegments ▸ List.mem_append_left _ hname)

/-- What lies below a directory is the directory's path, a slash and more. -/
theorem below?_eq_some_iff {rest : String} (hd : d ≠ "") :
    below? d p = some rest ↔ p = d ++ "/" ++ rest := by
  rw [below?, if_neg hd, Option.map_eq_some_iff]
  constructor
  · rintro ⟨chars, hchars, rfl⟩
    apply String.toList_injective
    rw [String.toList_append, String.toList_ofList]
    exact (List.isPrefixOf?_eq_some_iff_append_eq.1 hchars).symm
  · rintro rfl
    exact ⟨rest.toList, List.isPrefixOf?_eq_some_iff_append_eq.2 String.toList_append.symm,
      String.ofList_toList⟩

theorem isSome_below?_iff (hd : d ≠ "") : (below? d p).isSome ↔ Below d p := by
  rw [Option.isSome_iff_exists, below_iff]
  exact exists_congr fun rest => below?_eq_some_iff hd

/-! ## Parents -/

theorem splitLast?_of_no_slash (h : '/' ∉ p.toList) : Text.splitLast? '/' p = none := by
  have hdrop : p.toList.reverse.dropWhile (· ≠ '/') = [] := by
    rw [List.dropWhile_eq_nil_iff]
    intro c hc
    simpa using fun heq : c = '/' => h (heq ▸ List.mem_reverse.1 hc)
  rw [Text.splitLast?]
  simp only [hdrop]

/-- The last slash parts the last name from what is before it. -/
theorem splitLast?_append (h : '/' ∉ name.toList) :
    Text.splitLast? '/' (d ++ "/" ++ name) = some (d, name) := by
  have hchars : (d ++ "/" ++ name).toList.reverse
      = name.toList.reverse ++ '/' :: d.toList.reverse := by
    simp [String.toList_append]
  have hname : ∀ c ∈ name.toList.reverse, decide (c ≠ '/') = true := by
    intro c hc
    simpa using fun heq : c = '/' => h (heq ▸ List.mem_reverse.1 hc)
  have hdrop : (d ++ "/" ++ name).toList.reverse.dropWhile (· ≠ '/') = '/' :: d.toList.reverse := by
    rw [hchars, List.dropWhile_append_of_pos hname]
    simp
  have htake : (d ++ "/" ++ name).toList.reverse.takeWhile (· ≠ '/') = name.toList.reverse := by
    rw [hchars, List.takeWhile_append_of_pos hname]
    simp
  rw [Text.splitLast?]
  simp only [hdrop, htake, List.reverse_reverse, String.ofList_toList]

/-- A path without a slash stands in the root. -/
theorem parent_of_no_slash (h : '/' ∉ p.toList) : parent p = "" := by
  rw [Path.parent, Path.split, splitLast?_of_no_slash h]
  rfl

/-- The parent of a path is what stands before the last slash. -/
theorem parent_append (h : '/' ∉ name.toList) : parent (d ++ "/" ++ name) = d := by
  rw [Path.parent, Path.split, splitLast?_append h]
  rfl

/-- A text with a slash can be cut at its last one. -/
theorem exists_eq_append_last (h : '/' ∈ p.toList) :
    ∃ d name, p = d ++ "/" ++ name ∧ '/' ∉ name.toList := by
  obtain ⟨before, after, hchars, hbefore⟩ :=
    List.eq_append_cons_of_mem (List.mem_reverse.2 h)
  refine ⟨String.ofList after.reverse, String.ofList before.reverse,
    String.toList_injective ?_, ?_⟩
  · rw [← List.reverse_inj, hchars]
    simp [String.toList_append]
  · rwa [String.toList_ofList, List.mem_reverse]

/-- A path below a directory has the directory for its parent or has its parent below it. -/
theorem Below.parent (h : Below d p) : parent p = d ∨ Below d (parent p) := by
  obtain ⟨rest, rfl⟩ := below_iff.1 h
  -- the parent is the directory itself exactly if one name is left
  by_cases hslash : '/' ∈ rest.toList
  · obtain ⟨e, name, rfl, hname⟩ := exists_eq_append_last hslash
    have hsame : d ++ "/" ++ (e ++ "/" ++ name) = (d ++ "/" ++ e) ++ "/" ++ name := by
      simp only [String.append_assoc]
    rw [hsame, parent_append hname]
    exact .inr (below_append d e)
  · exact .inl (parent_append hslash)

/-- A path is a single segment, or lies below its parent. -/
theorem no_slash_or_below_parent (p : String) : '/' ∉ p.toList ∨ Below (Path.parent p) p := by
  by_cases h : '/' ∈ p.toList
  · obtain ⟨d, name, rfl, hname⟩ := exists_eq_append_last h
    rw [parent_append hname]
    exact .inr (below_append d name)
  · exact .inl h

theorem IsNormal.parent (hp : IsNormal p) : IsNormal (parent p) := by
  rcases no_slash_or_below_parent p with hslash | hbelow
  · rw [parent_of_no_slash hslash]
    exact isNormal_empty
  · exact hbelow.isNormal hp

/-! ## First segments -/

theorem splitFirst?_of_no_slash (h : '/' ∉ p.toList) : Text.splitFirst? '/' p = none := by
  have hdrop : p.toList.dropWhile (· ≠ '/') = [] := by
    rw [List.dropWhile_eq_nil_iff]
    intro c hc
    simpa using fun heq : c = '/' => h (heq ▸ hc)
  rw [Text.splitFirst?]
  simp only [hdrop]

/-- The first slash parts the first name from the rest. -/
theorem splitFirst?_append (h : '/' ∉ name.toList) (rest : String) :
    Text.splitFirst? '/' (name ++ "/" ++ rest) = some (name, rest) := by
  have hchars : (name ++ "/" ++ rest).toList = name.toList ++ '/' :: rest.toList := by
    simp [String.toList_append]
  have hname : ∀ c ∈ name.toList, decide (c ≠ '/') = true := by
    intro c hc
    simpa using fun heq : c = '/' => h (heq ▸ hc)
  have hdrop : (name ++ "/" ++ rest).toList.dropWhile (· ≠ '/') = '/' :: rest.toList := by
    rw [hchars, List.dropWhile_append_of_pos hname]
    simp
  have htake : (name ++ "/" ++ rest).toList.takeWhile (· ≠ '/') = name.toList := by
    rw [hchars, List.takeWhile_append_of_pos hname]
    simp
  rw [Text.splitFirst?]
  simp only [hdrop, htake, String.ofList_toList]

/-- A text with a slash can be cut at its first one. -/
theorem exists_eq_append_first (h : '/' ∈ p.toList) :
    ∃ name rest, p = name ++ "/" ++ rest ∧ '/' ∉ name.toList := by
  obtain ⟨before, after, hchars, hbefore⟩ := List.eq_append_cons_of_mem h
  refine ⟨String.ofList before, String.ofList after, String.toList_injective ?_, ?_⟩
  · rw [hchars]
    simp [String.toList_append]
  · rwa [String.toList_ofList]

/-! ## Joining -/

@[simp] theorem join_empty (name : String) : join "" name = name :=
  if_pos rfl

theorem join_of_ne (hd : d ≠ "") (name : String) : join d name = d ++ "/" ++ name :=
  if_neg hd

/-- A name that is joined to a directory is found again below it. -/
theorem below?_join (d name : String) : below? d (join d name) = some name := by
  by_cases hd : d = ""
  · rw [hd, join_empty, below?, if_pos rfl]
  · rw [below?_eq_some_iff hd, join_of_ne hd]

/-- What is found below a directory leads there when joined to it. -/
theorem eq_join_of_below? (h : below? d p = some name) : p = join d name := by
  by_cases hd : d = ""
  · rw [hd, below?, if_pos rfl] at h
    rw [hd, join_empty]
    exact Option.some.inj h
  · rw [join_of_ne hd]
    exact (below?_eq_some_iff hd).1 h

/-- Different names make different paths. -/
theorem join_inj {other : String} (h : join d name = join d other) : name = other := by
  have hbelow := below?_join d name
  rw [h, below?_join] at hbelow
  exact (Option.some.inj hbelow).symm

/-- A rest can be put after the name before it is joined. -/
theorem join_append (d name rest : String) :
    join d name ++ "/" ++ rest = join d (name ++ "/" ++ rest) := by
  by_cases hd : d = ""
  · rw [hd, join_empty, join_empty]
  · rw [join_of_ne hd, join_of_ne hd]
    simp only [String.append_assoc]

/-- A path that is joined from a directory and a name has this directory as parent. -/
theorem parent_join (hname : '/' ∉ name.toList) (d : String) : parent (join d name) = d := by
  by_cases hd : d = ""
  · rw [hd, join_empty, parent_of_no_slash hname]
  · rw [join_of_ne hd, parent_append hname]

/-- Nothing in a directory lies below another name in it. -/
theorem not_below_join {other : String} (hother : '/' ∉ other.toList) :
    ¬ Below (join d name) (join d other) := by
  intro h
  obtain ⟨rest, heq⟩ := below_iff.1 h
  rw [join_append] at heq
  rw [join_inj heq] at hother
  simp [String.toList_append] at hother

theorem join_ne_empty (hname : name ≠ "") : join d name ≠ "" := by
  by_cases hd : d = ""
  · rwa [hd, join_empty]
  · rw [join_of_ne hd]
    exact (below_append d name).ne_empty

/-- Only the root is in itself. -/
theorem length_lt_join (hname : name ≠ "") (d : String) :
    d.toList.length < (join d name).toList.length := by
  have hpos : 0 < name.toList.length := List.length_pos_iff.2 (by rwa [ne_eq, String.toList_eq_nil_iff])
  by_cases hd : d = ""
  · rw [hd, join_empty]
    exact hpos
  · rw [join_of_ne hd, String.toList_append, String.toList_append, List.length_append,
      List.length_append]
    omega

/-- Joining a name leads away from the directory. -/
theorem join_ne_self (hne : join d name ≠ "") : join d name ≠ d := by
  intro heq
  by_cases hd : d = ""
  · exact hne (heq.trans hd)
  · have hbelow := below_append d name
    rw [← join_of_ne hd, heq] at hbelow
    exact Below.irrefl d hbelow

/-- A directory is no name in itself. -/
theorem not_isNormal_join_empty (hd : d ≠ "") : ¬ IsNormal (join d "") := by
  rw [join_of_ne hd]
  intro hp
  have hempty := hp.empty_not_mem_segments (below_append d "").ne_empty
  rw [segments_append, segments_empty] at hempty
  simp at hempty

/-- What stands in a directory under a normal path has a name. -/
theorem IsNormal.isName_of_join (h : IsNormal (join d name)) (hname : '/' ∉ name.toList)
    (hne : name ≠ "") : IsName name := by
  have hsegments := segments_of_no_slash hname
  refine h.isName_segments (join_ne_empty hne) name ?_
  by_cases hd : d = ""
  · rw [hd, join_empty, hsegments]
    exact List.mem_singleton_self name
  · rw [join_of_ne hd, segments_append, hsegments]
    exact List.mem_append_right _ (List.mem_singleton_self name)

/-- Nothing normal lies below an empty name. -/
theorem not_below_join_empty (hp : IsNormal p) : ¬ Below (join d "") p := by
  intro h
  obtain ⟨rest, rfl⟩ := below_iff.1 h
  apply hp.empty_not_mem_segments h.ne_empty
  rw [segments_append, List.mem_append]
  left
  by_cases hd : d = ""
  · simp [hd, segments_empty]
  · rw [join_of_ne hd, segments_append, segments_empty]
    simp

/-- Joining names one by one goes on after a directory with all of them. -/
theorem foldl_join {names : List String} (hd : d ≠ "") (hne : names ≠ []) :
    names.foldl join d = d ++ "/" ++ ofSegments names := by
  induction names generalizing d with
  | nil => contradiction
  | cons name rest ih =>
    rw [List.foldl_cons, join_of_ne hd]
    by_cases hrest : rest = []
    · rw [hrest, List.foldl_nil, ofSegments_singleton]
    · rw [ih (below_append d name).ne_empty hrest, ofSegments_cons hrest]
      simp only [String.append_assoc]

/-- Joining names one by one from the root gives the path made of them. -/
theorem foldl_join_ofSegments {names : List String} (h : ∀ name ∈ names, name ≠ "") :
    names.foldl join "" = ofSegments names := by
  cases names with
  | nil => rfl
  | cons name rest =>
    rw [List.foldl_cons, join_empty]
    by_cases hrest : rest = []
    · rw [hrest, List.foldl_nil, ofSegments_singleton]
    · rw [foldl_join (h name List.mem_cons_self) hrest, ofSegments_cons hrest]

/-- Joining the segments of a normal path one by one spells the path. -/
theorem IsNormal.foldl_join_segments (hp : IsNormal p) : (segments p).foldl join "" = p := by
  obtain ⟨names, hnames, rfl⟩ := isNormal_iff.1 hp
  by_cases hne : names = []
  · subst hne
    rfl
  · rw [segments_ofSegments hne fun name hname => (hnames name hname).no_slash,
      foldl_join_ofSegments fun name hname => (hnames name hname).ne_empty]

/-- Names lead down from a directory, if they lead anywhere. -/
theorem eq_foldl_join_or_below (names : List String) (hd : d ≠ "") :
    d = names.foldl join d ∨ Below d (names.foldl join d) := by
  by_cases hne : names = []
  · subst hne
    exact .inl rfl
  · rw [foldl_join hd hne]
    exact .inr (below_append d _)

/-! ## Directories and what is in them -/

/-- Within a directory is the directory itself, and what is below it. -/
theorem isWithin_iff : isWithin d p ↔ d = "" ∨ p = d ∨ Below d p := by
  by_cases hd : d = ""
  · simp [isWithin, hd]
  · simp [isWithin, hd, isSome_below?_iff hd]

theorem isWithin_self (d : String) : isWithin d d :=
  isWithin_iff.2 (.inr (.inl rfl))

theorem Below.isWithin (h : Below d p) : isWithin d p :=
  isWithin_iff.2 (.inr (.inr h))

/-- What lies below something within a directory is within the directory. -/
theorem isWithin_of_below (hq : isWithin d q) (h : Below q p) : isWithin d p := by
  rcases isWithin_iff.1 hq with hd | rfl | hq
  · exact isWithin_iff.2 (.inl hd)
  · exact h.isWithin
  · exact (hq.trans h).isWithin

/-- What is within something within is within. -/
theorem isWithin_trans (hde : isWithin d e) (hep : isWithin e p) (he : e ≠ "") : isWithin d p := by
  rcases isWithin_iff.1 hep with heq | rfl | hbelow
  · exact absurd heq he
  · exact hde
  · exact isWithin_of_below hde hbelow

/-- Two directories within each other are the same. -/
theorem isWithin_antisymm (hde : isWithin d e) (hed : isWithin e d) : d = e := by
  rcases isWithin_iff.1 hde with hd | heq | hbelow
  · rcases isWithin_iff.1 hed with he | heq | hbelow'
    · rw [hd, he]
    · exact heq
    · exact absurd hd hbelow'.ne_empty
  · exact heq.symm
  · rcases isWithin_iff.1 hed with he | heq | hbelow'
    · exact absurd he hbelow.ne_empty
    · exact heq
    · exact absurd (hbelow.trans hbelow') (Below.irrefl d)

/-- What is in a directory is the directory itself, or at or below a name in it. -/
theorem exists_isWithin_join (h : isWithin d p) (hp : IsNormal p) (hne : p ≠ d) :
    ∃ name, '/' ∉ name.toList ∧ name ≠ "" ∧ (p = join d name ∨ Below (join d name) p) := by
  have hrest : ∃ rest, p = join d rest := by
    rcases isWithin_iff.1 h with rfl | heq | hbelow
    · exact ⟨p, (join_empty p).symm⟩
    · exact absurd heq hne
    · obtain ⟨rest, rfl⟩ := below_iff.1 hbelow
      by_cases hd : d = ""
      · exact ⟨d ++ "/" ++ rest, by rw [hd, join_empty]⟩
      · exact ⟨rest, (join_of_ne hd rest).symm⟩
  obtain ⟨rest, rfl⟩ := hrest
  by_cases hslash : '/' ∈ rest.toList
  · obtain ⟨name, tail, rfl, hname⟩ := exists_eq_append_first hslash
    have hbelow : Below (join d name) (join d (name ++ "/" ++ tail)) := by
      rw [← join_append]
      exact below_append _ tail
    -- an empty name would put an empty segment into the path
    refine ⟨name, hname, ?_, .inr hbelow⟩
    rintro rfl
    exact not_below_join_empty hp hbelow
  · refine ⟨rest, hslash, ?_, .inl rfl⟩
    rintro rfl
    by_cases hd : d = ""
    · exact hne (by rw [hd, join_empty])
    · exact not_isNormal_join_empty hd hp

/-- Going up from within a directory stays within it, but for the directory itself. -/
theorem isWithin_parent (h : isWithin d p) (hne : p ≠ d) : isWithin d (parent p) := by
  rcases isWithin_iff.1 h with hd | heq | hbelow
  · exact isWithin_iff.2 (.inl hd)
  · exact absurd heq hne
  · rcases hbelow.parent with heq | hbelow
    · exact heq ▸ isWithin_self d
    · exact hbelow.isWithin

/-- What is in a directory is within what the directory is within. -/
theorem isWithin_join (h : isWithin d e) (name : String) : isWithin d (join e name) := by
  by_cases he : e = ""
  · subst he
    rcases isWithin_iff.1 h with hd | hd | hd
    · exact isWithin_iff.2 (.inl hd)
    · exact isWithin_iff.2 (.inl hd.symm)
    · exact absurd rfl hd.ne_empty
  · rw [join_of_ne he]
    exact isWithin_of_below h (below_append e name)

/-- The parent of a directory is not within it, but for the root. -/
theorem not_isWithin_parent (hd : d ≠ "") : ¬ isWithin d (parent d) := by
  intro h
  have hparent : parent d = "" ∨ Below (parent d) d :=
    (no_slash_or_below_parent d).imp parent_of_no_slash id
  rcases isWithin_iff.1 h with hroot | heq | hbelow
  · exact hd hroot
  · rcases hparent with hroot | hbelow
    · exact hd (heq.symm.trans hroot)
    · rw [heq] at hbelow
      exact Below.irrefl d hbelow
  · rcases hparent with hroot | hup
    · exact hbelow.ne_empty hroot
    · exact Below.irrefl d (hbelow.trans hup)

/-- The proper ancestors of a path are what it lies below. -/
theorem below_of_mem_ancestors (h : q ∈ ancestors p) : Below q p := by
  rw [ancestors, List.mem_map] at h
  obtain ⟨n, hn, rfl⟩ := h
  rw [List.mem_reverse, List.mem_drop_iff_getElem] at hn
  obtain ⟨i, hi, hn⟩ := hn
  rw [List.length_range] at hi
  rw [List.getElem_range] at hn
  have hfirst : (segments p).take n ≠ [] := by
    rw [ne_eq, List.take_eq_nil_iff, not_or]
    exact ⟨by omega, segments_ne_nil p⟩
  have hlast : (segments p).drop n ≠ [] := by
    rw [ne_eq, List.drop_eq_nil_iff]
    omega
  refine below_iff.2 ⟨ofSegments ((segments p).drop n), ?_⟩
  rw [← ofSegments_append hfirst hlast, List.take_append_drop, ofSegments_segments]

/-- What a path lies below is one of its proper ancestors. -/
theorem mem_ancestors_of_below (h : Below q p) : q ∈ ancestors p := by
  obtain ⟨rest, rfl⟩ := below_iff.1 h
  have hfirst := List.length_pos_of_ne_nil (segments_ne_nil q)
  have hlast := List.length_pos_of_ne_nil (segments_ne_nil rest)
  rw [ancestors, List.mem_map]
  refine ⟨(segments q).length, ?_, ?_⟩
  · rw [List.mem_reverse, List.mem_drop_iff_getElem]
    refine ⟨(segments q).length - 1, ?_, ?_⟩
    · rw [List.length_range, segments_append, List.length_append]
      omega
    · rw [List.getElem_range]
      omega
  · rw [segments_append, List.take_left', ofSegments_segments]
    rfl

end Sandshell.Path
