import Mathlib.Data.List.Basic
import Mathlib.Data.List.Infix
import Mathlib.Data.String.Basic
import Sandshell.Pattern.Wildcard

/-!
# Names that a pattern matches

A name matches if it is the pattern with each star replaced by some text; the dot that starts a name
is never part of such a text. A pair of stars matches like one.
-/

namespace Sandshell.Wildcard

variable {pattern segment : List Glyph} {name : String} {c : Char} {start : Bool}

/-! ## Matching -/

/-- What glyphs stand for in a name, be it from its `start` or from further on: a character for
itself, a star for any text. -/
structure Reads (start : Bool) (parts : List (Glyph × List Char)) : Prop where
  char : ∀ c text, (.char c, text) ∈ parts → text = [c]
  /-- The text that starts the name does not start with a dot if it is that of a star. -/
  dot : start = true → ∀ text, parts.find? (·.2 ≠ []) ≠ some (.star, '.' :: text)

/-- What is left of a name is the pattern with each star replaced by some text. -/
def MatchesFrom (start : Bool) (pattern : List Glyph) (name : List Char) : Prop :=
  ∃ parts, Reads start parts ∧ parts.map Prod.fst = pattern ∧ parts.flatMap Prod.snd = name

/-- A name is the pattern with each star replaced by some text. -/
def Matches (pattern : List Glyph) (name : String) : Prop :=
  MatchesFrom true pattern name.toList

namespace Reads

variable {parts : List (Glyph × List Char)} {text : List Char}

theorem nil : Reads start [] :=
  ⟨by simp, by simp⟩

/-- A character reads itself. -/
theorem cons_char_iff :
    Reads start ((.char c, text) :: parts) ↔ text = [c] ∧ Reads false parts := by
  constructor
  · intro h
    exact ⟨h.char c text List.mem_cons_self,
      fun d s hmem => h.char d s (List.mem_cons_of_mem _ hmem), fun hstart => by contradiction⟩
  · rintro ⟨rfl, h⟩
    refine ⟨fun d s hmem => ?_, by simp⟩
    rcases List.mem_cons.1 hmem with heq | hmem
    · cases heq
      rfl
    · exact h.char d s hmem

/-- A star that stands for nothing leaves the start of the name to what follows. -/
theorem cons_star_nil_iff : Reads start ((.star, []) :: parts) ↔ Reads start parts := by
  constructor
  · intro h
    refine ⟨fun d s hmem => h.char d s (List.mem_cons_of_mem _ hmem), fun hstart s => ?_⟩
    simpa using h.dot hstart s
  · intro h
    refine ⟨fun d s hmem => h.char d s (by simpa using hmem), fun hstart s => ?_⟩
    simpa using h.dot hstart s

/-- A star reads any character but a dot at the start. -/
theorem cons_star_cons_iff : Reads start ((.star, c :: text) :: parts)
    ↔ ¬ (start = true ∧ c = '.') ∧ Reads false ((.star, text) :: parts) := by
  constructor
  · intro h
    refine ⟨fun ⟨hstart, hc⟩ => h.dot hstart text (by simp [hc]), fun d s hmem => ?_, by simp⟩
    exact h.char d s (by simpa using hmem)
  · rintro ⟨hdot, h⟩
    refine ⟨fun d s hmem => h.char d s (by simpa using hmem),
      fun hstart s hfind => hdot ⟨hstart, ?_⟩⟩
    simp only [List.find?_cons, ne_eq, reduceCtorEq, not_false_eq_true, decide_true,
      Option.some.injEq, Prod.mk.injEq, List.cons.injEq, true_and] at hfind
    exact hfind.1

end Reads

namespace MatchesFrom

variable {g : Glyph} {d : Char} {name : List Char}

/-- The empty pattern matches the empty name. -/
theorem nil_iff : MatchesFrom start [] name ↔ name = [] := by
  constructor
  · rintro ⟨parts, -, hpattern, rfl⟩
    rw [List.map_eq_nil_iff.1 hpattern]
    rfl
  · rintro rfl
    exact ⟨[], Reads.nil, rfl, rfl⟩

/-- A pattern matches what its first glyph reads and its rest matches. -/
theorem cons_iff : MatchesFrom start (g :: pattern) name ↔ ∃ text parts,
    Reads start ((g, text) :: parts) ∧ parts.map Prod.fst = pattern
      ∧ text ++ parts.flatMap Prod.snd = name := by
  constructor
  · rintro ⟨_ | ⟨⟨first, text⟩, parts⟩, h, hpattern, hname⟩
    · contradiction
    · obtain ⟨rfl, rfl⟩ := List.cons.inj hpattern
      exact ⟨text, parts, h, rfl, hname⟩
  · rintro ⟨text, parts, h, rfl, rfl⟩
    exact ⟨_, h, rfl, rfl⟩

/-- A star may read nothing. -/
theorem star_nil_iff : MatchesFrom start (.star :: pattern) [] ↔ MatchesFrom start pattern [] := by
  rw [cons_iff]
  constructor
  · rintro ⟨text, parts, h, hpattern, hname⟩
    obtain ⟨rfl, hrest⟩ := List.append_eq_nil_iff.1 hname
    exact ⟨parts, Reads.cons_star_nil_iff.1 h, hpattern, hrest⟩
  · rintro ⟨parts, h, hpattern, hname⟩
    exact ⟨[], parts, Reads.cons_star_nil_iff.2 h, hpattern, hname⟩

/-- A star stands for nothing, or for the next character and more. -/
theorem star_cons_iff : MatchesFrom start (.star :: pattern) (c :: name)
    ↔ MatchesFrom start pattern (c :: name)
      ∨ ¬ (start = true ∧ c = '.') ∧ MatchesFrom false (.star :: pattern) name := by
  rw [cons_iff, cons_iff]
  constructor
  · rintro ⟨text, parts, h, hpattern, hname⟩
    cases text with
    | nil => exact .inl ⟨parts, Reads.cons_star_nil_iff.1 h, hpattern, hname⟩
    | cons d text =>
      obtain ⟨rfl, hrest⟩ := List.cons.inj hname
      obtain ⟨hdot, h⟩ := Reads.cons_star_cons_iff.1 h
      exact .inr ⟨hdot, text, parts, h, hpattern, hrest⟩
  · rintro (⟨parts, h, hpattern, hname⟩ | ⟨hdot, text, parts, h, hpattern, rfl⟩)
    · exact ⟨[], parts, Reads.cons_star_nil_iff.2 h, hpattern, hname⟩
    · exact ⟨c :: text, parts, Reads.cons_star_cons_iff.2 ⟨hdot, h⟩, hpattern, rfl⟩

theorem not_char_nil : ¬ MatchesFrom start (.char d :: pattern) [] := by
  rw [cons_iff]
  rintro ⟨text, parts, h, -, hname⟩
  obtain ⟨rfl, -⟩ := Reads.cons_char_iff.1 h
  contradiction

/-- A character matches itself only. -/
theorem char_cons_iff : MatchesFrom start (.char d :: pattern) (c :: name)
    ↔ c = d ∧ MatchesFrom false pattern name := by
  rw [cons_iff]
  constructor
  · rintro ⟨text, parts, h, hpattern, hname⟩
    obtain ⟨rfl, hrest⟩ := Reads.cons_char_iff.1 h
    obtain ⟨rfl, rfl⟩ := List.cons.inj hname
    exact ⟨rfl, parts, hrest, hpattern, rfl⟩
  · rintro ⟨rfl, parts, h, hpattern, rfl⟩
    exact ⟨[c], parts, Reads.cons_char_iff.2 ⟨rfl, h⟩, hpattern, rfl⟩

end MatchesFrom

/-- The matcher finds a match exactly if there is one. -/
theorem matchesFrom_iff {name : List Char} :
    matchesFrom start pattern name = true ↔ MatchesFrom start pattern name := by
  fun_induction matchesFrom start pattern name with
  | case1 start => simp [MatchesFrom.nil_iff]
  | case2 start c name => simp [MatchesFrom.nil_iff]
  | case3 start pattern ih => rw [ih, MatchesFrom.star_nil_iff]
  | case4 start pattern c name ih ih' =>
    have hdot : (!(start && c = '.')) = true ↔ ¬ (start = true ∧ c = '.') := by
      rw [Bool.not_eq_true', Bool.eq_false_iff, ne_eq, Bool.and_eq_true, decide_eq_true_eq]
    rw [MatchesFrom.star_cons_iff, Bool.or_eq_true, Bool.and_eq_true, ih, ih', hdot]
  | case5 start d pattern => exact iff_of_false Bool.false_ne_true MatchesFrom.not_char_nil
  | case6 start d pattern c name ih =>
    rw [MatchesFrom.char_cons_iff, Bool.and_eq_true, decide_eq_true_eq, ih]

/-- It decides which names a pattern matches. -/
theorem matches?_iff : matches? pattern name = true ↔ Matches pattern name :=
  matchesFrom_iff

/-- The characters of a pattern stand in the names that it matches. -/
theorem Matches.mem (h : Matches pattern name) (hc : .char c ∈ pattern) : c ∈ name.toList := by
  obtain ⟨parts, hreads, rfl, hname⟩ := h
  obtain ⟨⟨g, text⟩, hmem, rfl⟩ := List.mem_map.1 hc
  obtain rfl := hreads.char c text hmem
  rw [← hname]
  exact List.mem_flatMap.2 ⟨_, hmem, List.mem_singleton_self c⟩

/-- All characters of a pattern but stars are literal. -/
theorem mem_text_iff (hc : c ≠ '*') : c ∈ (text pattern).toList ↔ .char c ∈ pattern := by
  rw [text, String.toList_ofList, List.mem_map]
  constructor
  · rintro ⟨g, hg, rfl⟩
    cases g with
    | star => contradiction
    | char d => exact hg
  · exact fun hmem => ⟨_, hmem, rfl⟩

/-! ## Cutting at slashes -/

/-- The segments of a pattern are those between slashes. -/
theorem segments_eq_splitOn (pattern : List Glyph) :
    segments pattern = pattern.splitOn (.char '/') := by
  induction pattern with
  | nil => rfl
  | cons g rest ih =>
    rw [List.splitOn_cons_eq_if_modifyHead, segments, ih]
    by_cases h : g = .char '/'
    · simp [h]
    · rw [if_neg h, if_neg (by simpa using h)]
      cases hs : rest.splitOn (.char '/') with
      | nil => exact absurd hs (List.splitOn_ne_nil _ rest)
      | cons piece pieces => rfl

/-- The glyphs in the segments are those of the pattern but for the slashes. -/
theorem mem_segments_iff {g : Glyph} :
    (∃ segment ∈ segments pattern, g ∈ segment) ↔ g ∈ pattern ∧ g ≠ .char '/' := by
  induction pattern with
  | nil => simp [segments]
  | cons first rest ih =>
    rw [segments, List.mem_cons, or_and_right, ← ih]
    by_cases hfirst : first = .char '/'
    · rw [if_pos hfirst]
      have hslash : ¬ (g = first ∧ g ≠ .char '/') := fun h => h.2 (h.1.trans hfirst)
      simp [hslash]
    · rw [if_neg hfirst]
      have hself : g = first ∧ g ≠ .char '/' ↔ g = first :=
        and_iff_left_of_imp fun heq => heq ▸ hfirst
      rw [hself]
      cases segments rest with
      | nil => simp
      | cons piece pieces => simp [or_assoc]

/-- The first segment starts the pattern, and the other ones stand in it. -/
theorem exists_segments (pattern : List Glyph) : ∃ piece pieces, segments pattern = piece :: pieces
    ∧ piece <+: pattern ∧ ∀ other ∈ pieces, other <:+: pattern := by
  induction pattern with
  | nil => exact ⟨[], [], rfl, List.prefix_rfl, List.forall_mem_nil _⟩
  | cons g rest ih =>
    obtain ⟨piece, pieces, heq, hfirst, hmore⟩ := ih
    have htail : rest <:+: g :: rest := (List.suffix_cons g rest).isInfix
    have hrest : ∀ other ∈ pieces, other <:+: g :: rest :=
      fun other hother => (hmore other hother).trans htail
    rw [segments, heq]
    split
    · exact ⟨[], _, rfl, List.nil_prefix,
        List.forall_mem_cons.2 ⟨hfirst.isInfix.trans htail, hrest⟩⟩
    · exact ⟨_, _, rfl, (List.prefix_cons_inj g).2 hfirst, hrest⟩

/-- A segment stands in the pattern in one piece. -/
theorem infix_of_mem_segments (h : segment ∈ segments pattern) : segment <:+: pattern := by
  obtain ⟨piece, pieces, heq, hfirst, hmore⟩ := exists_segments pattern
  rw [heq] at h
  rcases List.mem_cons.1 h with rfl | hmem
  · exact hfirst.isInfix
  · exact hmore segment hmem

/-- A star starts the first segment exactly if it starts the pattern. -/
theorem head?_eq_star_iff {piece : List Glyph} {pieces : List (List Glyph)}
    (h : segments pattern = piece :: pieces) :
    piece.head? = some .star ↔ pattern.head? = some .star := by
  cases pattern with
  | nil =>
    obtain ⟨rfl, -⟩ := List.cons.inj h
    rfl
  | cons g rest =>
    obtain ⟨first, more, hrest, -⟩ := exists_segments rest
    rw [segments, hrest] at h
    split at h
    · next hslash =>
      obtain ⟨rfl, -⟩ := List.cons.inj h
      simp [hslash]
    · obtain ⟨rfl, -⟩ := List.cons.inj h
      rfl

/-! ## Runs of stars -/

/-- The check for two stars finds them wherever they stand. -/
theorem hasDoubleStar_iff : hasDoubleStar pattern = true ↔ [.star, .star] <:+: pattern := by
  fun_induction hasDoubleStar pattern with
  | case1 rest => exact iff_of_true rfl (List.prefix_append [.star, .star] rest).isInfix
  | case2 g rest hne ih =>
    rw [ih, List.infix_cons_iff, or_iff_right]
    rintro ⟨after, hafter⟩
    obtain ⟨rfl, rfl⟩ := List.cons.inj hafter
    exact hne after rfl rfl
  | case3 => simp

/-- A pattern without two stars in a row is valid. -/
theorem isValid_of_not_infix (h : ¬ [.star, .star] <:+: pattern) : isValid pattern = true := by
  rw [isValid, Bool.eq_false_iff.2 (mt hasDoubleStar_iff.1 h)]
  rfl

/-- Each run of stars shortened to one star: a star before another one is left out. -/
def shortened : List Glyph → List Glyph
  | [] => []
  | g :: rest => if g = .star ∧ rest.head? = some .star then shortened rest else g :: shortened rest

theorem shortened_of_pair {rest : List Glyph} (h : rest.head? = some .star) :
    shortened (.star :: rest) = shortened rest := by
  rw [shortened, if_pos ⟨rfl, h⟩]

theorem shortened_of_not_pair {g : Glyph} {rest : List Glyph}
    (h : ¬ (g = .star ∧ rest.head? = some .star)) :
    shortened (g :: rest) = g :: shortened rest := by
  rw [shortened, if_neg h]

/-- Shortening leaves the first glyph. -/
theorem head?_shortened (pattern : List Glyph) : (shortened pattern).head? = pattern.head? := by
  induction pattern with
  | nil => rfl
  | cons g rest ih =>
    rw [shortened]
    split
    · next hpair => rw [ih, hpair.1, hpair.2]; rfl
    · rfl

/-- It leaves a star where there was one. -/
theorem star_mem_shortened_iff : .star ∈ shortened pattern ↔ .star ∈ pattern := by
  induction pattern with
  | nil => simp [shortened]
  | cons g rest ih =>
    rw [shortened]
    split
    · next hpair => simp [ih, hpair.1, List.mem_of_head? hpair.2]
    · simp [ih]

theorem shortened_eq_nil_iff : shortened pattern = [] ↔ pattern = [] := by
  rw [← List.head?_eq_none_iff, head?_shortened, List.head?_eq_none_iff]

/-- Two stars in a row stand in front or further on. -/
theorem infix_cons_iff_pair {g : Glyph} {rest : List Glyph} : [.star, .star] <:+: g :: rest
    ↔ (g = .star ∧ rest.head? = some .star) ∨ [.star, .star] <:+: rest := by
  rw [List.infix_cons_iff]
  refine or_congr_left ⟨?_, ?_⟩
  · rintro ⟨after, hafter⟩
    obtain ⟨rfl, rfl⟩ := List.cons.inj hafter
    exact ⟨rfl, rfl⟩
  · rintro ⟨rfl, hhead⟩
    obtain ⟨after, rfl⟩ := List.head?_eq_some_iff.1 hhead
    exact List.prefix_append [.star, .star] after

/-- A pattern without a run is left alone. -/
theorem shortened_eq_self (h : ¬ [.star, .star] <:+: pattern) : shortened pattern = pattern := by
  induction pattern with
  | nil => rfl
  | cons g rest ih =>
    rw [infix_cons_iff_pair, not_or] at h
    rw [shortened_of_not_pair h.1, ih h.2]

/-- Shortening makes no pattern longer. -/
theorem length_shortened_le (pattern : List Glyph) :
    (shortened pattern).length ≤ pattern.length := by
  induction pattern with
  | nil => exact le_rfl
  | cons g rest ih =>
    rw [shortened]
    split
    · exact Nat.le_succ_of_le ih
    · exact Nat.succ_le_succ ih

/-- A pattern with a run gets shorter. -/
theorem length_shortened_lt (h : [.star, .star] <:+: pattern) :
    (shortened pattern).length < pattern.length := by
  induction pattern with
  | nil => simp at h
  | cons g rest ih =>
    rw [shortened]
    split
    · exact Nat.lt_succ_of_le (length_shortened_le rest)
    · next hpair =>
      exact Nat.succ_lt_succ (ih ((infix_cons_iff_pair.1 h).resolve_left hpair))

/-- It changes the text of a pattern that has two stars in a row. -/
theorem text_shortened_ne (h : [.star, .star] <:+: pattern) :
    text (shortened pattern) ≠ text pattern := by
  intro heq
  have hlength := congrArg (·.toList.length) heq
  simp only [text, String.toList_ofList, List.length_map] at hlength
  exact (length_shortened_lt h).ne hlength

/-- Runs are shortened segment by segment. -/
theorem segments_shortened (pattern : List Glyph) :
    segments (shortened pattern) = (segments pattern).map shortened := by
  induction pattern with
  | nil => rfl
  | cons g rest ih =>
    by_cases hslash : g = .char '/'
    · subst hslash
      rw [shortened_of_not_pair (by simp), segments, if_pos rfl, segments, if_pos rfl, ih]
      rfl
    obtain ⟨piece, pieces, hrest, -⟩ := exists_segments rest
    have hcut : segments (g :: rest) = (g :: piece) :: pieces := by
      rw [segments, if_neg hslash, hrest]
    rw [hrest] at ih
    rw [hcut, List.map_cons]
    -- a run goes on in the pattern exactly where it goes on in the first segment
    by_cases hpair : g = .star ∧ rest.head? = some .star
    · obtain ⟨rfl, hstar⟩ := hpair
      rw [shortened_of_pair hstar, ih, shortened_of_pair ((head?_eq_star_iff hrest).2 hstar)]
      rfl
    · rw [shortened_of_not_pair hpair, segments, if_neg hslash, ih,
        shortened_of_not_pair (by rwa [head?_eq_star_iff hrest])]
      rfl

/-- A pair of stars matches like one. -/
theorem matchesFrom_pair (start : Bool) (name : List Char) :
    matchesFrom start [.star, .star] name = matchesFrom start [.star] name := by
  induction name generalizing start with
  | nil => simp [matchesFrom]
  | cons c name ih =>
    have hone : matchesFrom start [.star] (c :: name)
        = (!(start && c = '.') && matchesFrom false [.star] name) := by
      rw [matchesFrom, matchesFrom, Bool.false_or]
    -- the second star takes the character, or the first one does and leaves the pair
    rw [matchesFrom, ih, hone, Bool.or_self]

end Sandshell.Wildcard
