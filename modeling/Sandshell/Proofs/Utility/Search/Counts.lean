import Sandshell.Proofs.Utility.Search.Status

/-!
# Lines listed and counted

What a search prints of the texts it searches: of each one the first selected lines, or their number.
The number is that of the printed lines but for two cases: counting knows no greatest number, and one
line is all that counts where files are asked for.
-/

namespace Sandshell

open Sandshell.Path (IsNormal)

namespace Search

variable {t : Tree} {mode : Mode} {o : Options} {isMatch : String → Bool} {ctx : UtilityContext}
variable {collected : List (Except String (List Target))}

/-- A searched text, and the name that stands in front of what is printed of it. -/
structure Source where
  name : Option String
  text : String

/-- The lines of sources, as they are printed. -/
def linesOutput (o : Options) (sources : List Source) (lines : String → List (Nat × String)) :
    String :=
  String.join (sources.map fun source => String.join ((lines source.text).map fun (number, line) =>
    printLine o source.name number line))

/-- A printed count. -/
def countLine (filename : Option String) (n : Nat) : String :=
  (match filename with
    | some f => f ++ ":"
    | none => "")
    ++ toString n ++ "\n"

/-- The counts of sources, as they are printed. Where there is no source, a zero is printed unless
names are asked for. -/
def countsOutput (named : Bool) (sources : List Source) (count : String → Nat) : String :=
  String.join (sources.map fun source => countLine source.name (count source.text))
    ++ if sources.isEmpty && !named then "0\n" else ""

/-- The sources of targets. -/
def sourcesOf (t : Tree) (mode : Mode) (o : Options) (found : List Target) : List Source :=
  found.map fun target => ⟨shownName mode o found target, target.text t⟩

/-- A search that lists prints the lines of its sources in order, up to the limit for each. -/
theorem operandsReport_listing_out (t : Tree) (mode : Mode) (o : Options)
    (isMatch : String → Bool) (collected : List (Except String (List Target))) :
    (operandsReport t mode o.listing isMatch collected).out
      = linesOutput o (sourcesOf t mode o (targetsOf collected)) (printed o.listing isMatch) := by
  have hreport : ∀ filename display text,
      (fileReport o.listing isMatch filename display text).out
        = String.join ((printed o.listing isMatch text).map fun (number, line) =>
          printLine o filename number line) := fun _ _ _ => String.append_empty
  simp only [operandsReport, targetReports, List.map_map, Function.comp_def, hreport, linesOutput,
    sourcesOf]
  exact String.append_empty

theorem showsNames_nil : showsNames mode o [] = (o.withFilename || o.recurses mode) := by
  simp only [showsNames, Options.recurses]
  cases mode.recursive <;> cases o.withFilename <;> simp

/-- Without names there is one target at most. -/
theorem eq_of_showsNames_eq_false {found : List Target} (h : showsNames mode o found = false) :
    found = [] ∨ ∃ target, found = [target] := by
  have hlength : found.length ≤ 1 := by
    by_contra! hlong
    simp [showsNames, hlong] at h
  match found, hlength with
  | [], _ => exact .inl rfl
  | [target], _ => exact .inr ⟨target, rfl⟩

/-- One that counts prints a number for each source, named if there may be several. -/
theorem operandsReport_counting_out (t : Tree) (mode : Mode) (o : Options)
    (isMatch : String → Bool) (collected : List (Except String (List Target))) :
    (operandsReport t mode o.counting isMatch collected).out
      = countsOutput (o.withFilename || o.recurses mode) (sourcesOf t mode o (targetsOf collected))
        (counted o.counting isMatch) := by
  have hsame : ∀ found, showsNames mode o.counting found = showsNames mode o found := fun _ => rfl
  rw [operandsReport, ← showsNames_nil]
  simp only [hsame]
  generalize targetsOf collected = found
  -- names are shown throughout, or there is one source at most
  cases hshows : showsNames mode o found with
  | true =>
    have hname : ∀ target, shownName mode o found target = some target.display := fun target =>
      if_pos hshows
    have hreports : (targetReports t mode o.counting isMatch found).map (·.out)
        = (sourcesOf t mode o found).map fun source =>
          countLine source.name (counted o.counting isMatch source.text) := by
      rw [targetReports, sourcesOf, List.map_map, List.map_map]
      refine List.map_congr_left fun target _ => ?_
      show (fileReport o.counting isMatch (shownName mode o found target) _ _).out
        = countLine (shownName mode o found target) _
      rw [hname target]
      rfl
    have htail : ((sourcesOf t mode o found).isEmpty && !showsNames mode o []) = false := by
      cases found with
      | nil => simp [hshows]
      | cons => rfl
    rw [countsOutput, hreports, htail, Bool.not_true, Bool.and_false]
    rfl
  | false =>
    rcases eq_of_showsNames_eq_false hshows with rfl | ⟨target, rfl⟩
    · rw [hshows]
      show "" ++ (toString 0 ++ "\n") = "" ++ "0\n"
      decide
    · have hname : shownName mode o [target] target = none := if_neg (by simp [hshows])
      have hreports : targetReports t mode o.counting isMatch [target]
          = [{ matched := found o.counting isMatch (target.text t)
               total := counted o.counting isMatch (target.text t) }] := by
        show [fileReport o.counting isMatch (shownName mode o [target] target) _ _] = _
        rw [hname]
        rfl
      have hsources : sourcesOf t mode o [target] = [⟨none, target.text t⟩] := by
        rw [sourcesOf, List.map_singleton, hname]
      rw [hreports, hsources]
      simp [countsOutput, countLine, Options.counting]

/-- The input is listed like a source without name. -/
theorem inputReport_listing_out (o : Options) (isMatch : String → Bool) (text : String) :
    (inputReport o.listing isMatch text).out
      = linesOutput o [⟨none, text⟩] (printed o.listing isMatch) := by
  have hlines : (inputReport o.listing isMatch text).out
      = String.join ((printed o.listing isMatch text).map fun (number, line) =>
        printLine o none number line) := String.append_empty
  rw [hlines, linesOutput, List.map_singleton]
  simp

/-- It is counted like one, too. -/
theorem inputReport_counting_out (o : Options) (isMatch : String → Bool) (text : String)
    (named : Bool) : (inputReport o.counting isMatch text).out
      = countsOutput named [⟨none, text⟩] (counted o.counting isMatch) := by
  have hprinted : printLines o.counting isMatch none text = "" := by
    simp [printLines, printed, Options.printsNoLines, Options.counting]
  rw [inputReport, hprinted]
  simp [countsOutput, countLine, Options.counting]

/-- What is searched, in order: the input, which has no name, or the targets that the operands stand
for, one operand after the other. -/
inductive AreSources (t : Tree) (mode : Mode) (o : Options) (ctx : UtilityContext) :
    List Source → Prop
  | input (h : o.readsInput mode ctx.stdin = true) :
      AreSources t mode o ctx [⟨none, ctx.stdin.lossyText⟩]
  | operands {collected : List (Except String (List Target))}
      (h : o.readsInput mode ctx.stdin = false)
      (hcollected : AreCollected t mode (o.recurses mode) ctx.cwd o.operands collected) :
      AreSources t mode o ctx (sourcesOf t mode o (targetsOf collected))

/-- The sources of a search are determined by its tree and its operands. -/
theorem AreSources.unique {sources sources' : List Source} (hwell : t.WellFormed)
    (h : AreSources t mode o ctx sources) (h' : AreSources t mode o ctx sources') :
    sources = sources' := by
  cases h with
  | input hinput =>
    cases h' with
    | input => rfl
    | operands hfiles => rw [hinput] at hfiles; contradiction
  | operands hfiles hcollected =>
    cases h' with
    | input hinput => rw [hfiles] at hinput; contradiction
    | operands _ hcollected' => rw [hcollected.targetsOf_unique hwell hcollected']

/-- Their texts are those that are searched. -/
theorem AreSources.searched_iff {sources : List Source} (hwell : t.WellFormed)
    (h : AreSources t mode o ctx sources) (text : String) :
    Searched t mode o ctx text ↔ ∃ source ∈ sources, source.text = text := by
  cases h with
  | input hinput =>
    rw [searched_input_iff hinput]
    simp [eq_comm]
  | operands hfiles hcollected =>
    rw [hcollected.searched_iff hwell hfiles]
    simp [sourcesOf]

/-- A search prints lines of the sources where it lists, and their counts where it counts; the sources
are what is searched, by their names and in their order. -/
structure Prints (t : Tree) (mode : Mode) (o : Options) (isMatch : String → Bool)
    (ctx : UtilityContext) (sources : List Source) : Prop where
  areSources : AreSources t mode o ctx sources
  searched_iff : ∀ text, Searched t mode o ctx text ↔ ∃ source ∈ sources, source.text = text
  lists : ∃ r, (searchWith mode o.listing isMatch ctx : WorkspaceM Tree Report) t = (.ok r, t)
    ∧ (r.outcome o.listing).stdout
      = Bytes.ofString (linesOutput o sources (printed o.listing isMatch))
  counts : ∃ r, (searchWith mode o.counting isMatch ctx : WorkspaceM Tree Report) t = (.ok r, t)
    ∧ (o.silent = false → (r.outcome o.counting).stdout = Bytes.ofString
      (countsOutput (o.withFilename || o.recurses mode) sources (counted o.counting isMatch)))

theorem listing_outcome (r : Report) (o : Options) :
    (r.outcome o.listing).stdout = Bytes.ofString r.out := rfl

theorem counting_outcome (r : Report) (hsilent : o.silent = false) :
    (r.outcome o.counting).stdout = Bytes.ofString r.out := by
  show Bytes.ofString (if o.silent then "" else r.out) = _
  rw [if_neg (by simp [hsilent])]

/-- A search prints, or the workspace refuses a path; this needs a working directory without normal
form. -/
theorem exists_prints (h : t.WellFormed) (mode : Mode) (o : Options) (isMatch : String → Bool)
    (ctx : UtilityContext) : (∃! sources, Prints t mode o isMatch ctx sources)
      ∨ ¬ IsNormal ctx.cwd ∧ ∃ e, ∀ o' : Options, o'.plain = o.plain →
        (searchWith mode o' isMatch ctx : WorkspaceM Tree Report) t = (.error e, t) := by
  obtain ⟨run, hreported, hrun⟩ := exists_searchWith h mode o isMatch ctx
  cases hreported with
  | invalid hfiles hoperand hresolve hinvalid =>
    refine .inr ⟨fun hcwd => ?_, _, hrun⟩
    have hnormal := Path.isNormal_of_resolve? hcwd hresolve
    rw [hnormal] at hinvalid
    cases hinvalid
  | input hinput =>
    have hsources : AreSources t mode o ctx _ := .input hinput
    refine .inl ⟨_, ⟨hsources, hsources.searched_iff h, ?_, ?_⟩, fun sources' hprints =>
      hprints.areSources.unique h hsources⟩
    · exact ⟨_, hrun o.listing rfl, by rw [listing_outcome, inputReport_listing_out]⟩
    · exact ⟨_, hrun o.counting rfl, fun hsilent => by
        rw [counting_outcome _ hsilent, inputReport_counting_out]⟩
  | operands hfiles hcollected =>
    have hsources : AreSources t mode o ctx _ := .operands hfiles hcollected
    refine .inl ⟨_, ⟨hsources, hsources.searched_iff h, ?_, ?_⟩, fun sources' hprints =>
      hprints.areSources.unique h hsources⟩
    · exact ⟨_, hrun o.listing rfl, by rw [listing_outcome, operandsReport_listing_out]⟩
    · exact ⟨_, hrun o.counting rfl, fun hsilent => by
        rw [counting_outcome _ hsilent, operandsReport_counting_out]⟩

/-- A search of a well-formed tree prints the first selected lines of each source, as many as the
greatest number says, unless this is zero and a line is selected. The tree, the options and the input
alone tell the sources, their names and their order. The count of a source is the number
of the lines that are printed of it if one line at most is selected; if the search is for files and
the greatest number is one at most; or if it is not, and no greatest number stops the printing. -/
theorem lists_and_counts (h : t.WellFormed) (mode : Mode) (o : Options) (isMatch : String → Bool)
    (ctx : UtilityContext) :
    ((∃! sources, Prints t mode o isMatch ctx sources)
      ∨ ¬ IsNormal ctx.cwd ∧ ∃ e, ∀ o' : Options, o'.plain = o.plain →
        (searchWith mode o' isMatch ctx : WorkspaceM Tree Report) t = (.error e, t))
      ∧ ∀ text,
        (selected o isMatch text).map Prod.snd
            = ((Text.lines text).filter fun line => isMatch line != o.invert)
          ∧ (o.maxCount = none → printed o.listing isMatch text = selected o isMatch text)
          ∧ (∀ max, o.maxCount = some max →
            (printed o.listing isMatch text = (selected o isMatch text).take max
              ↔ max ≠ 0 ∨ ¬ o.Selects isMatch text))
          ∧ (counted o.counting isMatch text = (printed o.listing isMatch text).length
            ↔ (selected o isMatch text).length ≤ 1 ∨
              if o.filesOnly then ∃ max, o.maxCount = some max ∧ max ≤ 1
              else ∀ max, o.maxCount = some max → (selected o isMatch text).length ≤ max) := by
  refine ⟨exists_prints h mode o isMatch ctx, fun text => ⟨map_snd_selected o isMatch text, ?_, ?_,
    counted_eq_length_iff⟩⟩
  · intro hnone
    rw [printed_listing, hnone]
  · exact fun max hmax => printed_eq_take_iff hmax

/-- With a limit of one line the first line is printed, and counted. -/
theorem lists_and_counts_withHidden : Tree.withHidden.WellFormed
    ∧ (∃! sources, Prints Tree.withHidden grep { files := ["a/b"], maxCount := some 1 }
      (fun _ => true) (contextAt "") sources)
    ∧ printed (Options.listing { files := ["a/b"], maxCount := some 1 }) (fun _ => true) "a
b" = [(1, "a")]
    ∧ counted (Options.counting { files := ["a/b"], maxCount := some 1 }) (fun _ => true) "a
b" ≠ 1 := by
  have hwell : Tree.withHidden.WellFormed := by decide +kernel
  obtain ⟨hprints, hlines⟩ := lists_and_counts hwell grep
    { files := ["a/b"], maxCount := some 1 } (fun _ => true) (contextAt "")
  obtain ⟨-, -, htake, hcount⟩ := hlines "a
b"
  have hselected : selected { files := ["a/b"], maxCount := some 1 } (fun _ => true) "a
b" = [(1, "a"), (2, "b")] := by decide +kernel
  have hprinted := (htake 1 rfl).2 (.inl one_ne_zero)
  rw [hselected] at hprinted hcount
  rw [hprinted] at hcount
  have hsome := hprints.resolve_right fun hfails => hfails.1 (by decide)
  exact ⟨hwell, hsome, hprinted, hcount.not.2 (by simp)⟩

/-- A greatest number of zero lets a line pass, and counting goes past the greatest number. -/
theorem not_forall_lists_and_counts : ¬ ∀ (o : Options) (isMatch : String → Bool) (text : String)
    (max : Nat), o.maxCount = some max →
      (fileReport o.listing isMatch none "f" text).out
          = String.join (((selected o isMatch text).take max).map fun (number, line) =>
            printLine o none number line)
        ∧ (fileReport o.counting isMatch none "f" text).total
          = ((selected o isMatch text).take max).length := by
  intro hall
  have hnone := (hall { maxCount := some 0 } (fun _ => true) "a" 0 rfl).1
  revert hnone
  decide +kernel

end Search

end Sandshell
