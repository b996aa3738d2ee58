import Mathlib.Algebra.Order.BigOperators.Group.List
import Sandshell.Proofs.Shell.Globbing

/-!
# Runs of stars

A pair of stars that is a whole segment matches like one star. Any other run of stars is refused,
and the field stands for its own text, whatever the field with the run shortened to one star
matches.
-/

namespace Sandshell

open Sandshell.Path (IsNormal)

/-! ## Patterns with runs -/

/-- Two stars stand next to each other. -/
def Wildcard.HasRun (pattern : List Glyph) : Prop :=
  [.star, .star] <:+: pattern

/-- Every run of stars is a pair that is a whole segment. -/
def Wildcard.RunsAreSegments (pattern : List Glyph) : Prop :=
  ∀ segment ∈ pattern.splitOn (.char '/'), HasRun segment → segment = [.star, .star]

instance (pattern : List Glyph) : Decidable (Wildcard.HasRun pattern) :=
  inferInstanceAs (Decidable (_ <:+: _))

instance (pattern : List Glyph) : Decidable (Wildcard.RunsAreSegments pattern) :=
  inferInstanceAs (Decidable (∀ segment ∈ _, _ → _))

namespace Glob

variable {W : Type} [Workspace W] {segment pattern : List Glyph} {segments : List (List Glyph)}

/-- Two stars in a row are refused unless they stand alone. -/
theorem isValid_iff : Wildcard.isValid segment = true
    ↔ (Wildcard.HasRun segment → segment = [.star, .star]) := by
  rw [Wildcard.isValid, Bool.or_eq_true, Bool.not_eq_true', decide_eq_true_eq, Wildcard.HasRun,
    ← Wildcard.hasDoubleStar_iff]
  cases Wildcard.hasDoubleStar segment <;> simp

/-- Standing alone they list what one star does. -/
theorem children_pair (last : Bool) :
    (children [.star, .star] last : Place → StateM W (List Place)) = children [.star] last := by
  funext place
  have hmatches : Wildcard.matches? [.star, .star] = Wildcard.matches? [.star] :=
    funext fun name => Wildcard.matchesFrom_pair true name.toList
  simp only [children, hmatches]

/-- A segment that is accepted moves like the shortened one. -/
theorem advance_shortened (hvalid : Wildcard.isValid segment = true) (last : Bool)
    (places : List Place) :
    (advance (Wildcard.shortened segment) last places : StateM W (List Place))
      = advance segment last places := by
  by_cases hrun : Wildcard.HasRun segment
  · obtain rfl := isValid_iff.1 hvalid hrun
    have hshort : Wildcard.shortened [.star, .star] = [.star] := rfl
    rw [hshort, advance, advance, children_pair]
    rfl
  · rw [Wildcard.shortened_eq_self hrun]

/-- Walks by valid segments do not tell a run of stars from one. -/
theorem walk_shortened (hvalid : ∀ segment ∈ segments, Wildcard.isValid segment = true)
    (places : List Place) :
    (walk places (segments.map Wildcard.shortened) : StateM W (List Place))
      = walk places segments := by
  induction segments generalizing places with
  | nil => rfl
  | cons segment rest ih =>
    obtain ⟨hsegment, hrest⟩ := List.forall_mem_cons.1 hvalid
    rw [List.map_cons, walk, walk, advance_shortened hsegment, List.isEmpty_map]
    simp only [ih hrest]

/-- Shortening leaves the slashes where they are. -/
theorem pieces_shortened (pattern : List Glyph) :
    pieces (Wildcard.shortened pattern) = (pieces pattern).map Wildcard.shortened := by
  rw [pieces, pieces, ← Wildcard.segments_eq_splitOn, ← Wildcard.segments_eq_splitOn,
    Wildcard.segments_shortened, List.filter_map]
  refine congrArg _ (List.filter_congr fun segment _ => ?_)
  rw [Function.comp_apply, decide_eq_decide, ne_eq, ne_eq, Wildcard.shortened_eq_nil_iff]

/-- A pattern whose runs are whole segments matches like the shortened one. -/
theorem expand_shortened (h : Wildcard.RunsAreSegments pattern) (cwd : String) :
    (expand cwd (Wildcard.shortened pattern) : StateM W (List String)) = expand cwd pattern := by
  have hstart : startOf cwd (Wildcard.shortened pattern) = startOf cwd pattern := by
    rw [startOf, startOf, Wildcard.head?_shortened]
  have hvalid : ∀ segment ∈ pieces pattern, Wildcard.isValid segment = true :=
    fun segment hsegment => isValid_iff.2 (h segment (List.mem_filter.1 hsegment).1)
  simp only [expand_eq, pieces_shortened, hstart, walk_shortened hvalid, List.map_eq_nil_iff]

/-- A segment that is refused ends all walks. -/
theorem walk_refused (hmem : segment ∈ segments) (hstar : .star ∈ segment)
    (hrefused : Wildcard.isValid segment = false) (places : List Place) (w : W) :
    (walk places segments w).1 = [] := by
  induction segments generalizing places w with
  | nil => contradiction
  | cons first rest ih =>
    rw [walk]
    split
    · rfl
    · rcases List.mem_cons.1 hmem with rfl | hrest
      · have hadvance : advance segment rest.isEmpty places w = ([], w) := by
          rw [advance, List.contains_iff_mem.2 hstar, hrefused]
          rfl
        rw [bind_apply hadvance, walk_nil]
      · exact ih hrest (advance first rest.isEmpty places w).1
          (advance first rest.isEmpty places w).2

/-- A run that is not a whole segment keeps a pattern from matching anything. -/
theorem expand_refused (h : ¬ Wildcard.RunsAreSegments pattern) (cwd : String) (w : W) :
    (expand cwd pattern w).1 = [] := by
  simp only [Wildcard.RunsAreSegments, not_forall] at h
  obtain ⟨segment, hsegment, hrun, hne⟩ := h
  have hrefused : Wildcard.isValid segment = false := by
    rw [Bool.eq_false_iff, ne_eq, isValid_iff]
    exact fun hvalid => hne (hvalid hrun)
  have hstar : .star ∈ segment := hrun.subset List.mem_cons_self
  have hmem : segment ∈ pieces pattern :=
    List.mem_filter.2 ⟨hsegment, by simpa using List.ne_nil_of_mem hstar⟩
  have hwalk := walk_refused hmem hstar hrefused [startOf cwd pattern] w
  rcases hplaces : walk [startOf cwd pattern] (pieces pattern) w with ⟨places, w'⟩
  obtain rfl : places = [] := by rwa [hplaces] at hwalk
  have hnone : [].filterM exists? w' = ([], w') := rfl
  rw [expand_eq, if_neg (List.ne_nil_of_mem hmem), bind_apply hplaces, bind_apply hnone,
    List.map_nil, List.mergeSort_nil]
  rfl

end Glob

/-! ## Fields with runs -/

/-- The field with each run of stars shortened to one star. -/
def Field.shortened (f : Field) : Field :=
  { f with glyphs := Wildcard.shortened f.glyphs }

namespace Expand

variable {W : Type} [Workspace W] {cwd : String} {f : Field} {w : W}

/-- What a field stands for in a workspace. -/
def namesOf (cwd : String) (w : W) (f : Field) : List String :=
  let found := if f.hasWildcard then (Glob.expand cwd f.glyphs w).1 else []
  if found = [] then [f.text] else found

/-- A field with a wildcard gives what it finds, or itself. -/
theorem namesOf_of_hasWildcard (hstar : f.hasWildcard = true) (cwd : String) (w : W) :
    namesOf cwd w f = if (Glob.expand cwd f.glyphs w).1 = [] then [f.text]
      else (Glob.expand cwd f.glyphs w).1 := by
  rw [namesOf, hstar, if_pos rfl]

/-- Fields give their names without fail. -/
theorem field_fst (cwd : String) (f : Field) (e : Expanding W) :
    (field cwd f e).1 = .ok (namesOf cwd e.workspace f) := by
  cases hstar : f.hasWildcard with
  | false =>
    rw [field, namesOf, hstar]
    rfl
  | true =>
    rcases hfound : Glob.expand cwd f.glyphs e.workspace with ⟨found, w⟩
    rw [field_apply hstar hfound, namesOf_of_hasWildcard hstar, hfound]

/-- What is found for the field with its runs shortened is what the field itself stands for: its
runs are whole segments and something is found, or its own text is all that is found. -/
def ReadsRunsAsOne (cwd : String) (w : W) (f : Field) : Prop :=
  let found := (Glob.expand cwd f.shortened.glyphs w).1
  (Wildcard.RunsAreSegments f.glyphs ∧ found ≠ []) ∨ found = [f.text]

theorem hasWildcard_of_hasRun (hrun : Wildcard.HasRun f.glyphs) :
    f.hasWildcard = true ∧ f.shortened.hasWildcard = true := by
  have hstar : .star ∈ f.glyphs := hrun.subset List.mem_cons_self
  exact ⟨List.contains_iff_mem.2 hstar,
    List.contains_iff_mem.2 (Wildcard.star_mem_shortened_iff.2 hstar)⟩

/-- A field with runs stands for what is found if the runs are whole segments, and else for its own
text. -/
theorem namesOf_of_hasRun (hrun : Wildcard.HasRun f.glyphs) (cwd : String) (w : W) :
    (Wildcard.RunsAreSegments f.glyphs → namesOf cwd w f
      = if (Glob.expand cwd f.shortened.glyphs w).1 = [] then [f.text]
        else (Glob.expand cwd f.shortened.glyphs w).1)
    ∧ (¬ Wildcard.RunsAreSegments f.glyphs → namesOf cwd w f = [f.text]) := by
  obtain ⟨hstar, -⟩ := hasWildcard_of_hasRun hrun
  constructor
  · intro hwhole
    rw [namesOf_of_hasWildcard hstar, ← Glob.expand_shortened hwhole]
    rfl
  · intro hrefused
    rw [namesOf_of_hasWildcard hstar, Glob.expand_refused hrefused, if_pos rfl]

/-- With a run of stars a field gives the names of the shortened one exactly if it reads the run as
one. -/
theorem namesOf_eq_shortened_iff (hrun : Wildcard.HasRun f.glyphs) (cwd : String) (w : W) :
    namesOf cwd w f = namesOf cwd w f.shortened ↔ ReadsRunsAsOne cwd w f := by
  obtain ⟨hwhole, hrefused⟩ := namesOf_of_hasRun hrun cwd w
  have hshort := namesOf_of_hasWildcard (hasWildcard_of_hasRun hrun).2 cwd w
  have htext : f.text ≠ f.shortened.text := (Wildcard.text_shortened_ne hrun).symm
  rw [ReadsRunsAsOne, hshort]
  generalize (Glob.expand cwd f.shortened.glyphs w).1 = found at *
  by_cases hsegments : Wildcard.RunsAreSegments f.glyphs
  · rw [hwhole hsegments]
    by_cases hnone : found = [] <;> simp [hnone, htext, hsegments]
  · rw [hrefused hsegments]
    by_cases hnone : found = []
    · simp [hnone, htext, hsegments]
    · simp [hnone, hsegments, eq_comm]

/-- A field gives one name at least. -/
theorem namesOf_ne_nil (cwd : String) (w : W) (f : Field) : namesOf cwd w f ≠ [] := by
  have hor : ∀ found : List String, (if found = [] then [f.text] else found) ≠ [] := by
    intro found
    by_cases hnone : found = [] <;> simp [hnone]
  exact hor _

/-- Shortening runs takes no names away. -/
theorem length_namesOf_le (cwd : String) (w : W) (f : Field) :
    (namesOf cwd w f).length ≤ (namesOf cwd w f.shortened).length := by
  by_cases hrun : Wildcard.HasRun f.glyphs
  · obtain ⟨hwhole, hrefused⟩ := namesOf_of_hasRun hrun cwd w
    by_cases hsegments : Wildcard.RunsAreSegments f.glyphs
    · rw [hwhole hsegments, namesOf_of_hasWildcard (hasWildcard_of_hasRun hrun).2]
      split <;> simp
    · rw [hrefused hsegments]
      exact List.length_pos_iff.2 (namesOf_ne_nil cwd w f.shortened)
  · rw [Field.shortened, Wildcard.shortened_eq_self hrun]

/-! ## Words with runs -/

/-- Lists put together are the same piece by piece if no piece is longer than the other one. -/
theorem flatMap_eq_flatMap_iff {α β : Type} {l : List α} {f g : α → List β}
    (h : ∀ a ∈ l, (f a).length ≤ (g a).length) :
    l.flatMap f = l.flatMap g ↔ ∀ a ∈ l, f a = g a := by
  induction l with
  | nil => simp
  | cons a rest ih =>
    obtain ⟨ha, hrest⟩ := List.forall_mem_cons.1 h
    rw [List.forall_mem_cons, ← ih hrest, List.flatMap_cons, List.flatMap_cons]
    refine ⟨fun heq => ?_, fun ⟨heq, hmore⟩ => by rw [heq, hmore]⟩
    have hle : (rest.flatMap f).length ≤ (rest.flatMap g).length := by
      rw [List.length_flatMap, List.length_flatMap]
      exact List.sum_le_sum hrest
    have hlength := congrArg List.length heq
    rw [List.length_append, List.length_append] at hlength
    -- neither part is longer on the left, so both are as long as on the right
    exact List.append_inj heq (by omega)

variable {ctx ctx' : ExpandContext W} {word' : Word} {e e' mid : Expanding W} {fs : List Field}

/-- Where looking leaves the workspace as it is, a word stands for what its fields stand for. -/
theorem word_of_fields (hstays : Workspace.StaysWhenSeen W)
    (h : fields ctx word' e = (.ok fs, mid)) : word ctx word' e
      = (.ok (fs.flatMap (namesOf ctx.state.cwd mid.workspace)), mid) := by
  have hfield : ∀ f ∈ fs, field ctx.state.cwd f mid
      = (.ok (namesOf ctx.state.cwd mid.workspace f), mid) := by
    intro f _
    have hlooked : Looked mid (field ctx.state.cwd f mid).2 :=
      Invariant.keeps_steady_iff.1 (keeps_field_looked mid ctx.state.cwd f) mid ⟨.refl, rfl⟩
    exact Prod.ext (field_fst ctx.state.cwd f mid) (hlooked.eq hstays)
  rw [word_eq_fields, bind_apply_ok h, bind_apply_ok (mapM_apply_ok hfield), List.flatMap_def]
  rfl

/-- A field with runs of stars stands for the same as the field with the runs shortened to one star
exactly if its runs are whole segments and something is found for the shortened field, or its own
text is all that is found. A word stands for the same as a word with the shortened fields exactly if
that is so for all its fields with runs. -/
theorem runs_read_as_one_iff (ctx : ExpandContext W) (e : Expanding W) :
    (∀ f : Field, Wildcard.HasRun f.glyphs →
      ((field ctx.state.cwd f e).1 = (field ctx.state.cwd f.shortened e).1
        ↔ ReadsRunsAsOne ctx.state.cwd e.workspace f))
    ∧ (Workspace.StaysWhenSeen W →
      ∀ (ctx' : ExpandContext W) (w w' : Word) (e' mid : Expanding W) (fs : List Field),
        ctx'.state.cwd = ctx.state.cwd → fields ctx w e = (.ok fs, mid) →
        fields ctx' w' e' = (.ok (fs.map Field.shortened), mid) →
        ((word ctx w e).1 = (word ctx' w' e').1
          ↔ ∀ f ∈ fs, Wildcard.HasRun f.glyphs →
            ReadsRunsAsOne ctx.state.cwd mid.workspace f)) := by
  constructor
  · intro f hrun
    rw [field_fst, field_fst, Except.ok.injEq, namesOf_eq_shortened_iff hrun]
  · intro hstays ctx' w w' e' mid fs hcwd hfields hfields'
    rw [word_of_fields hstays hfields, word_of_fields hstays hfields', hcwd, List.flatMap_map,
      Except.ok.injEq, flatMap_eq_flatMap_iff fun f _ => length_namesOf_le _ _ f]
    refine forall₂_congr fun f _ => ?_
    by_cases hrun : Wildcard.HasRun f.glyphs
    · rw [namesOf_eq_shortened_iff hrun]
      exact ⟨fun h _ => h, fun h => h hrun⟩
    · have hsame : f.shortened = f := by rw [Field.shortened, Wildcard.shortened_eq_self hrun]
      rw [hsame]
      exact iff_of_true rfl fun h => absurd h hrun

/-- Literal characters make one field. -/
theorem ofFragments_literals {chars : List Char} (hne : chars ≠ []) :
    Field.ofFragments (chars.map fun c => ⟨.literal, String.singleton c⟩)
      = [.unquoted (String.ofList chars)] := by
  have htagged : (chars.map fun c => (⟨.literal, String.singleton c⟩ : Fragment)).flatMap
      Fragment.tagged = chars.map (.char .literal) := by
    rw [List.flatMap_map, List.map_eq_flatMap]
    exact congrArg (chars.flatMap ·) (funext fun c => by simp [Fragment.tagged])
  have hfield : Tagged.toField (chars.map (.char .literal)) = .unquoted (String.ofList chars) := by
    simp [Tagged.toField, Field.unquoted, Tagged.glyph?, List.filterMap_map, Function.comp_def]
  rw [Field.ofFragments_eq, htagged,
    Tagged.pieces_of_forall_isCut_eq_false (by simp [Tagged.isCut]),
    if_neg (by simpa using hne), List.map_singleton, hfield]

omit [Workspace W] in
/-- A word without dollar signs and quotes is one field. -/
theorem fields_literal {text : String} (hdollar : '$' ∉ text.toList) (hne : text ≠ "") :
    fields ctx (.bare text) e = (.ok [.unquoted text], e) := by
  rw [fields, bind_apply_ok (fragments_chars ctx e hdollar),
    ofFragments_literals fun hnil => hne (String.toList_eq_nil_iff.1 hnil), String.ofList_toList]
  rfl

/-- A state in the root, with no values. -/
def seesNothing : ExpandContext Tree where
  state := {}
  substitute _ := return ""

/-- A tree with one file. -/
def oneFile : Expanding Tree :=
  ⟨.ofFiles [("ab", [])], []⟩

/-- A pattern of one segment finds the file if it matches its name. -/
theorem expand_oneFile {pattern : List Glyph} (hpattern : Glob.IsPiece pattern)
    (hstar : .star ∈ pattern) (halone : ¬ Wildcard.HasRun pattern)
    (hmatches : Wildcard.Matches pattern "ab") :
    "ab" ∈ (Glob.expand "" pattern oneFile.workspace).1 := by
  obtain ⟨found, hfound, -, hfinds⟩ := Glob.exists_expand (t := oneFile.workspace)
    (by decide +kernel) Path.isNormal_empty (Glob.pieces_ne_nil hstar)
    fun _ => Glob.isValid_of_mem_pieces halone
  have hstat : oneFile.workspace.stat "ab" = .ok (some ⟨.file, 0⟩) := by decide +kernel
  have hname : Path.LeadsDown "ab" := ⟨by decide, by decide, by decide, by decide⟩
  rw [hfound]
  exact (hfinds "ab").2 ⟨"ab", Glob.finds_of_isPiece hpattern hstar hname hstat hmatches⟩

/-- Two stars that stand alone read as one. -/
theorem runs_read_as_one_iff_pair : (word seesNothing (.bare "**") oneFile).1
      = (word seesNothing (.bare "*") oneFile).1
    ∧ (field "" (.unquoted "**") oneFile).1 = (field "" (.unquoted "*") oneFile).1 := by
  have hmatches : Wildcard.Matches [.star] "ab" :=
    Wildcard.matches?_iff.1 (by simp [Wildcard.matches?, Wildcard.matchesFrom])
  have hfound := expand_oneFile ⟨by decide, by decide⟩ (by decide) (by decide +kernel) hmatches
  have hreads : ReadsRunsAsOne "" oneFile.workspace (.unquoted "**") :=
    .inl ⟨by decide +kernel, List.ne_nil_of_mem hfound⟩
  have hfields : fields seesNothing (.bare "**") oneFile = (.ok [.unquoted "**"], oneFile) :=
    fields_literal (by decide +kernel) (by decide)
  have hfields' : fields seesNothing (.bare "*") oneFile = (.ok [.unquoted "*"], oneFile) :=
    fields_literal (by decide +kernel) (by decide)
  obtain ⟨hfield, hword⟩ := runs_read_as_one_iff seesNothing oneFile
  refine ⟨(hword Tree.staysWhenSeen seesNothing _ _ oneFile oneFile _ rfl hfields hfields').2 ?_,
    (hfield _ (by decide +kernel)).2 hreads⟩
  exact List.forall_mem_singleton.2 fun _ => hreads

/-- Not every run of stars means one star: with a file `ab`, the word `a*` stands for its name, and
the word `a**` for itself. -/
theorem not_forall_word_of_shortened : ¬ ∀ (ctx ctx' : ExpandContext Tree) (w w' : Word)
    (e mid : Expanding Tree) (fs : List Field), ctx'.state.cwd = ctx.state.cwd →
    fields ctx w e = (.ok fs, mid) → fields ctx' w' e = (.ok (fs.map Field.shortened), mid) →
    (∀ f ∈ fs, Wildcard.HasRun f.glyphs →
      (Glob.expand ctx.state.cwd f.shortened.glyphs mid.workspace).1 ≠ []) →
    (word ctx w e).1 = (word ctx' w' e).1 := by
  intro h
  have hmatches : Wildcard.Matches [.char 'a', .star] "ab" :=
    Wildcard.matches?_iff.1 (by simp [Wildcard.matches?, Wildcard.matchesFrom])
  have hfound := expand_oneFile ⟨by decide, by decide⟩ (by decide) (by decide +kernel) hmatches
  have hfields : fields seesNothing (.bare "a**") oneFile = (.ok [.unquoted "a**"], oneFile) :=
    fields_literal (by decide +kernel) (by decide)
  have hfields' : fields seesNothing (.bare "a*") oneFile = (.ok [.unquoted "a*"], oneFile) :=
    fields_literal (by decide +kernel) (by decide)
  have hsame := h seesNothing seesNothing (.bare "a**") (.bare "a*") oneFile oneFile _ rfl hfields
    hfields' (List.forall_mem_singleton.2 fun _ => List.ne_nil_of_mem hfound)
  rw [word_of_fields Tree.staysWhenSeen hfields, word_of_fields Tree.staysWhenSeen hfields',
    Except.ok.injEq, List.flatMap_singleton, List.flatMap_singleton] at hsame
  have hliteral : namesOf "" oneFile.workspace (.unquoted "a**") = ["a**"] :=
    (namesOf_of_hasRun (by decide +kernel) "" oneFile.workspace).2 (by decide +kernel)
  have hnames : "ab" ∈ namesOf "" oneFile.workspace (.unquoted "a*") := by
    rw [namesOf_of_hasWildcard (by decide +kernel)]
    exact (if_neg (List.ne_nil_of_mem hfound)).symm ▸ hfound
  change namesOf "" oneFile.workspace _ = namesOf "" oneFile.workspace _ at hsame
  rw [← hsame, hliteral] at hnames
  contradiction

end Expand

end Sandshell
