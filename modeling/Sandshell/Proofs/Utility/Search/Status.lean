import Sandshell.Proofs.Utility.Search.Reports

/-!
# The exit code of a search

A search of a well-formed tree exits with zero if a line is selected anywhere, with two if no line is
and some operand cannot be searched, and with one otherwise. What is said of the output changes
neither this nor the diagnostics. How expressions are read is an argument here.
-/

namespace Sandshell

open Sandshell.Path (IsNormal)

namespace Search

variable {t : Tree} {mode : Mode} {quiet : Bool} {o o' : Options} {isMatch : String → Bool}
variable {ctx : UtilityContext} {run : Options → Except WorkspaceError Report} {r r' : Report}
variable {collected : List (Except String (List Target))} {lead : List String}

/-- Searches as arguments say, with a given way to read expressions. -/
def outcomeBy {W : Type} [Workspace W] (read : String → Except RegexError (String → Bool))
    (mode : Mode) (ctx : UtilityContext) (args : List String) : WorkspaceM W CommandOutcome := do
  match Options.parse args with
  | .error e => return .fail 2 (mode.name ++ ": " ++ e.message)
  | .ok o =>
    match read o.expression with
    | .error e => return .fail 2 (mode.name ++ ": invalid regex: " ++ e.message)
    | .ok isMatch => return (← searchWith mode o isMatch ctx).outcome o

/-- How a search reads expressions. -/
def readMatch (expression : String) : Except RegexError (String → Bool) :=
  (Regex.read expression).map Regex.isMatch

/-- The utility reads expressions with its own reader. -/
theorem outcome_eq_outcomeBy {W : Type} [Workspace W] (mode : Mode) (ctx : UtilityContext)
    (args : List String) :
    (outcome mode ctx args : WorkspaceM W CommandOutcome) = outcomeBy readMatch mode ctx args := by
  unfold outcome outcomeBy readMatch
  cases Options.parse args with
  | error e => rfl
  | ok o =>
    dsimp only
    cases Regex.read o.expression <;> rfl

/-! ## What the exit code tells -/

/-- A text that is searched: the input, or the text of a file that an operand reaches. -/
inductive Searched (t : Tree) (mode : Mode) (o : Options) (ctx : UtilityContext) : String → Prop
  | input (h : o.readsInput mode ctx.stdin = true) : Searched t mode o ctx ctx.stdin.lossyText
  | file {operand file : String} {data : Bytes} (h : o.readsInput mode ctx.stdin = false)
      (hoperand : operand ∈ o.operands)
      (hreaches : Reaches t mode (o.recurses mode) ctx.cwd operand file)
      (hdata : t.files[file]? = some data) : Searched t mode o ctx data.lossyText

/-- Some operand of the search cannot be searched. -/
def Misses (t : Tree) (mode : Mode) (o : Options) (ctx : UtilityContext) : Prop :=
  o.readsInput mode ctx.stdin = false
    ∧ ∃ operand ∈ o.operands, Refused t (o.recurses mode) ctx.cwd operand

/-- The exit code that a search has to have. -/
inductive Status (t : Tree) (mode : Mode) (o : Options) (isMatch : String → Bool)
    (ctx : UtilityContext) : Int → Prop
  | selected {text : String} (hsearched : Searched t mode o ctx text)
      (hselects : o.Selects isMatch text) : Status t mode o isMatch ctx 0
  | missed (hnone : ∀ text, Searched t mode o ctx text → ¬ o.Selects isMatch text)
      (hmisses : Misses t mode o ctx) : Status t mode o isMatch ctx 2
  | nothing (hnone : ∀ text, Searched t mode o ctx text → ¬ o.Selects isMatch text)
      (hmisses : ¬ Misses t mode o ctx) : Status t mode o isMatch ctx 1

/-- What a search comes to. It can fail for want of a normal form only where the working directory
has none. -/
inductive Answer (t : Tree) (mode : Mode) (o : Options) (isMatch : String → Bool)
    (ctx : UtilityContext) : Except WorkspaceError CommandOutcome → Prop
  | invalid {operand path : String} (hoperand : operand ∈ o.operands)
      (hresolve : Path.resolve? ctx.cwd operand = some path)
      (hinvalid : Path.normalize? path = none) (hcwd : ¬ IsNormal ctx.cwd) :
      Answer t mode o isMatch ctx (.error (.invalidPath path))
  | outcome {result : CommandOutcome} (hstatus : Status t mode o isMatch ctx result.exitCode)
      (hsilent : o.silent → result.stdout = []) : Answer t mode o isMatch ctx (.ok result)

/-- Where a line is selected in what is searched, the search succeeds. -/
theorem Answer.exitCode_of_selects {text : String} {answer : Except WorkspaceError CommandOutcome}
    (h : Answer t mode o isMatch ctx answer) (hcwd : IsNormal ctx.cwd)
    (hsearched : Searched t mode o ctx text) (hselects : o.Selects isMatch text) :
    ∃ result, answer = .ok result ∧ result.exitCode = 0 := by
  cases h with
  | invalid _ _ _ hinvalid => exact absurd hcwd hinvalid
  | @outcome result hstatus =>
    refine ⟨result, rfl, ?_⟩
    generalize result.exitCode = code at hstatus
    cases hstatus with
    | selected => rfl
    | missed hnone => exact absurd hselects (hnone _ hsearched)
    | nothing hnone => exact absurd hselects (hnone _ hsearched)

/-- The report tells what the exit code has to tell. -/
structure Tells (t : Tree) (mode : Mode) (o : Options) (isMatch : String → Bool)
    (ctx : UtilityContext) (r : Report) : Prop where
  matched_iff : r.matched = true ↔ ∃ text, Searched t mode o ctx text ∧ o.Selects isMatch text
  err_iff : r.err ≠ "" ↔ Misses t mode o ctx

/-- A report that tells what is there has the status for it. -/
theorem Tells.status (h : Tells t mode o isMatch ctx r) : Status t mode o isMatch ctx r.exitCode := by
  have hnone : r.matched ≠ true → ∀ text, Searched t mode o ctx text → ¬ o.Selects isMatch text :=
    fun hmatched text hsearched hselects => hmatched (h.matched_iff.2 ⟨text, hsearched, hselects⟩)
  rw [Report.exitCode]
  split_ifs with hmatched herr
  · obtain ⟨text, hsearched, hselects⟩ := h.matched_iff.1 hmatched
    exact .selected hsearched hselects
  · exact .missed (hnone hmatched) (h.err_iff.1 herr)
  · exact .nothing (hnone hmatched) fun hmisses => herr (h.err_iff.2 hmisses)

theorem Target.text_eq {target : Target} {data : Bytes} (h : t.read target.path = .ok data) :
    target.text t = data.lossyText := by
  rw [Target.text, h]
  rfl

/-- No diagnostic is empty. -/
theorem join_refusals_ne_empty_iff :
    String.join (refusals mode collected) ≠ "" ↔ refusals mode collected ≠ [] := by
  cases hrefusals : refusals mode collected with
  | nil => simp
  | cons first rest =>
    have hmem : first ∈ refusals mode collected := hrefusals ▸ List.mem_cons_self
    obtain ⟨result, -, hfirst⟩ := List.mem_filterMap.1 hmem
    cases result with
    | ok => contradiction
    | error e =>
      obtain rfl := Option.some.inj hfirst
      simp [String.join_cons, String.append_eq_empty_iff]

/-- The input is all that is searched where it is searched. -/
theorem searched_input_iff {text : String} (h : o.readsInput mode ctx.stdin = true) :
    Searched t mode o ctx text ↔ text = ctx.stdin.lossyText := by
  constructor
  · rintro (hinput | hfiles)
    · rfl
    · rw [h] at hfiles
      contradiction
  · rintro rfl
    exact .input h

/-- Else it is the texts of the targets that were found. -/
theorem AreCollected.searched_iff {text : String} (hwell : t.WellFormed)
    (h : o.readsInput mode ctx.stdin = false)
    (hcollected : AreCollected t mode (o.recurses mode) ctx.cwd o.operands collected) :
    Searched t mode o ctx text ↔ ∃ target ∈ targetsOf collected, target.text t = text := by
  constructor
  · rintro (hinput | ⟨-, hoperand, hreaches, hdata⟩)
    · rw [h] at hinput
      contradiction
    · obtain ⟨target, htarget, hread⟩ := hcollected.exists_target hwell hoperand hreaches hdata
      exact ⟨target, htarget, Target.text_eq hread⟩
  · rintro ⟨target, htarget, rfl⟩
    obtain ⟨operand, hoperand, file, data, hreaches, hdata, hread⟩ := hcollected.exists_file hwell htarget
    rw [Target.text_eq hread]
    exact .file h hoperand hreaches hdata

/-- The report of an input tells whether a line of it is selected. -/
theorem tells_input (h : o.readsInput mode ctx.stdin = true) :
    Tells t mode o isMatch ctx (inputReport o isMatch ctx.stdin.lossyText) where
  matched_iff := by
    show found o isMatch ctx.stdin.lossyText = true ↔ _
    simp only [searched_input_iff h, exists_eq_left, found_iff]
  err_iff := by simp [Misses, h, inputReport]

/-- That of operands tells whether one of any file is, and what went wrong. -/
theorem tells_operands (hwell : t.WellFormed) (h : o.readsInput mode ctx.stdin = false)
    (hcollected : AreCollected t mode (o.recurses mode) ctx.cwd o.operands collected) :
    Tells t mode o isMatch ctx (operandsReport t mode o isMatch collected) where
  matched_iff := by
    simp only [operandsReport, List.any_eq_true, found_iff, hcollected.searched_iff hwell h]
    constructor
    · rintro ⟨target, htarget, hselects⟩
      exact ⟨_, ⟨target, htarget, rfl⟩, hselects⟩
    · rintro ⟨_, ⟨target, htarget, rfl⟩, hselects⟩
      exact ⟨target, htarget, hselects⟩
  err_iff := by
    show String.join (refusals mode collected) ≠ "" ↔ _
    rw [Misses, and_iff_right h, join_refusals_ne_empty_iff, hcollected.refusals_ne_nil_iff hwell]

/-- A search answers with its report. -/
theorem answer_of_reported (hwell : t.WellFormed) (h : Reported t mode o isMatch ctx run) :
    Answer t mode o isMatch ctx ((run o).map (Report.outcome o)) := by
  have hsilent : ∀ r : Report, o.silent = true → (r.outcome o).stdout = [] := by
    intro r hquiet
    rw [Report.outcome, hquiet]
    rfl
  cases h with
  | invalid hfiles hoperand hresolve hinvalid =>
    refine .invalid hoperand hresolve hinvalid fun hcwd => ?_
    have hnormal := Path.isNormal_of_resolve? hcwd hresolve
    rw [hnormal] at hinvalid
    cases hinvalid
  | input hinput => exact .outcome (tells_input hinput).status (hsilent _)
  | operands hfiles hcollected =>
    exact .outcome (tells_operands hwell hfiles hcollected).status (hsilent _)

/-! ## What the output does not change -/

/-- The outcomes agree but for their output; the second one has none where that is known. -/
structure SameStatus (quiet : Bool) (result result' : CommandOutcome) : Prop where
  exitCode_eq : result'.exitCode = result.exitCode
  stderr_eq : result'.stderr = result.stderr
  silent : quiet → result'.stdout = []

/-- Options that print otherwise find the same. -/
theorem found_congr (h : o'.plain = o.plain) (isMatch : String → Bool) (text : String) :
    found o' isMatch text = found o isMatch text := by
  show found o'.plain isMatch text = found o.plain isMatch text
  rw [h]

/-- They give the same exit code and the same complaints. -/
theorem Options.Agree.sameStatus (h : o.Agree quiet o') (hmatched : r'.matched = r.matched)
    (herr : r'.err = r.err) : SameStatus quiet (r.outcome o) (r'.outcome o') where
  exitCode_eq := by
    show r'.exitCode = r.exitCode
    rw [Report.exitCode, Report.exitCode, hmatched, herr]
  stderr_eq := congrArg Bytes.ofString herr
  silent hquiet := by
    rw [Report.outcome, h.silent hquiet]
    rfl

/-- Options that ask for the same search have it report the same but for the output. -/
theorem Reported.sameOutcome (h : Reported t mode o isMatch ctx run) (hagree : o.Agree quiet o') :
    SameOutcome (SameStatus quiet) ((run o).map (Report.outcome o))
      ((run o').map (Report.outcome o')) := by
  have hfound := found_congr hagree.plain_eq isMatch
  cases h with
  | invalid => exact .error _
  | input => exact .ok (hagree.sameStatus (hfound _) rfl)
  | operands => exact .ok (hagree.sameStatus (by simp only [operandsReport, hfound]) rfl)

theorem fail_sameStatus (quiet : Bool) (message : String) :
    SameStatus quiet (.fail 2 message) (.fail 2 message) :=
  ⟨rfl, rfl, fun _ => rfl⟩

variable {read : String → Except RegexError (String → Bool)} {args : List String}

/-- A search that starts is reported as its options say. -/
theorem outcomeBy_apply {report : Except WorkspaceError Report} (hparse : Options.parse args = .ok o)
    (hread : read o.expression = .ok isMatch)
    (hrun : (searchWith mode o isMatch ctx : WorkspaceM Tree Report) t = (report, t)) :
    outcomeBy read mode ctx args t = (report.map (Report.outcome o), t) := by
  rw [outcomeBy, hparse]
  dsimp only
  rw [hread]
  cases report with
  | error e => exact bind_apply_error hrun
  | ok r => exact bind_apply_ok hrun

/-- Leading options of the output leave all but the output as it is. -/
theorem exists_outcomeBy_append (h : t.WellFormed)
    (read : String → Except RegexError (String → Bool)) (mode : Mode) (ctx : UtilityContext)
    (args : List String) (hlead : Options.Outputs quiet lead) :
    ∃ result result', outcomeBy read mode ctx args t = (result, t)
      ∧ outcomeBy read mode ctx (lead ++ args) t = (result', t)
      ∧ SameOutcome (SameStatus quiet) result result' := by
  have hparse := Options.parse_append hlead args
  generalize hfirst : Options.parse args = first, hsecond : Options.parse (lead ++ args) = second
    at hparse
  cases hparse with
  | error e =>
    refine ⟨_, _, ?_, ?_, .ok (fail_sameStatus quiet (mode.name ++ ": " ++ e.message))⟩
    · rw [outcomeBy, hfirst]
      rfl
    · rw [outcomeBy, hsecond]
      rfl
  | @ok o o' hagree =>
    have hexpression := hagree.expression_eq
    -- the expression is the same, and so is whether it can be read
    cases hread : read o.expression with
    | error e =>
      refine ⟨_, _, ?_, ?_,
        .ok (fail_sameStatus quiet (mode.name ++ ": invalid regex: " ++ e.message))⟩
      · rw [outcomeBy, hfirst]
        dsimp only
        rw [hread]
        rfl
      · rw [outcomeBy, hsecond]
        dsimp only
        rw [hexpression, hread]
        rfl
    | ok isMatch =>
      obtain ⟨run, hreported, hrun⟩ := exists_searchWith h mode o isMatch ctx
      exact ⟨_, _, outcomeBy_apply hfirst hread (hrun o rfl),
        outcomeBy_apply hsecond (hexpression ▸ hread) (hrun o' hagree.plain_eq),
        hreported.sameOutcome hagree⟩

/-- The exit code of a search of a well-formed tree tells whether a line is selected anywhere and
whether an operand cannot be searched, however expressions are read. Leading options of the output
change neither it nor the diagnostics, and a silent search has no output. -/
theorem outcome_status (h : t.WellFormed) (mode : Mode) (ctx : UtilityContext)
    (args : List String) :
    (outcome mode ctx args : WorkspaceM Tree CommandOutcome) = outcomeBy readMatch mode ctx args
      ∧ ∀ read : String → Except RegexError (String → Bool),
        (∀ o isMatch, Options.parse args = .ok o → read o.expression = .ok isMatch →
          ∃ result, outcomeBy read mode ctx args t = (result, t)
            ∧ Answer t mode o isMatch ctx result)
        ∧ ∀ quiet lead, Options.Outputs quiet lead →
          ∃ result result', outcomeBy read mode ctx args t = (result, t)
            ∧ outcomeBy read mode ctx (lead ++ args) t = (result', t)
            ∧ SameOutcome (SameStatus quiet) result result' := by
  refine ⟨outcome_eq_outcomeBy mode ctx args, fun read => ⟨fun o isMatch hparse hread => ?_, ?_⟩⟩
  · obtain ⟨run, hreported, hrun⟩ := exists_searchWith h mode o isMatch ctx
    exact ⟨_, outcomeBy_apply hparse hread (hrun o rfl), answer_of_reported h hreported⟩
  · intro quiet lead hlead
    exact exists_outcomeBy_append h read mode ctx args hlead

/-- A context with nothing but a working directory. -/
def contextAt (cwd : String) : UtilityContext where
  config := {}
  cwd
  env := ∅
  stdin := []
  now := default

/-- One file below the first operand. -/
theorem searched_withHidden : Searched Tree.withHidden grep
    { pattern := "x", files := ["a", "b"], recursive := true } (contextAt "")
    (Bytes.lossyText [2]) := by
  have hdirectory : Tree.withHidden.isDirectory "a" := by decide +kernel
  have hmem : "a/b" ∈ Tree.withHidden.files := by decide +kernel
  have hreaches : Reaches Tree.withHidden grep true "" "a" "a/b" :=
    @Reaches.below _ _ _ _ _ "a" "a" _ (by decide) (by decide) hdirectory rfl hmem (by decide) nofun
  exact .file rfl List.mem_cons_self hreaches (by decide +kernel)

theorem outcome_status_withHidden : Tree.withHidden.WellFormed
    ∧ Options.Outputs true ["-nm", "3", "-q"]
    ∧ ∃ result result', result.exitCode = 0 ∧ result'.exitCode = 0 ∧ result'.stdout = []
      ∧ result'.stderr = result.stderr
      ∧ outcomeBy (fun _ => .ok fun line => line = "\x02") grep (contextAt "")
        ["-r", "x", "a", "b"] Tree.withHidden = (.ok result, Tree.withHidden)
      ∧ outcomeBy (fun _ => .ok fun line => line = "\x02") grep (contextAt "")
        ["-nm", "3", "-q", "-r", "x", "a", "b"] Tree.withHidden = (.ok result', Tree.withHidden) := by
  have hwell : Tree.withHidden.WellFormed := by decide +kernel
  have hquiet : Options.Outputs true ["-q"] :=
    @Options.Outputs.cluster false ['q'] [] [] (by decide) (by simp [Options.outputLetters])
      (by decide) (by decide) .nothing
  have hlead : Options.Outputs true ["-nm", "3", "-q"] :=
    @Options.Outputs.cluster true ['n', 'm'] ["3"] ["-q"] (by decide)
      (by simp [Options.outputLetters]) (by decide) (by decide) hquiet
  obtain ⟨-, hall⟩ := outcome_status hwell grep (contextAt "") ["-r", "x", "a", "b"]
  obtain ⟨hanswer, hsame⟩ := hall fun _ => .ok fun line => line = "\x02"
  have hparse : Options.parse ["-r", "x", "a", "b"]
      = .ok { pattern := "x", files := ["a", "b"], recursive := true } := by
    cbv
  obtain ⟨first, hrun, hanswer⟩ := hanswer _ _ hparse rfl
  obtain ⟨result, hok, hcode⟩ :=
    hanswer.exitCode_of_selects (by decide) searched_withHidden ⟨"\x02", by decide +kernel, by decide⟩
  obtain ⟨_, second, hrun', hrunLead, houtcome⟩ := hsame true _ hlead
  obtain rfl := congrArg Prod.fst (hrun.symm.trans hrun')
  subst hok
  cases houtcome with
  | @ok _ result' hstatus =>
    exact ⟨hwell, hlead, result, result', hcode, hstatus.exitCode_eq.trans hcode,
      hstatus.silent rfl, hstatus.stderr_eq, hrun, hrunLead⟩

/-- Where the working directory has no normal form, an operand can lead to a path that the workspace
refuses. Then there is no exit code, whatever is selected elsewhere. -/
theorem not_forall_status : ¬ ∀ (t : Tree) (mode : Mode) (ctx : UtilityContext) (args : List String)
    (read : String → Except RegexError (String → Bool)) (o : Options) (isMatch : String → Bool),
    t.WellFormed → Options.parse args = .ok o → read o.expression = .ok isMatch →
      ∃ result, outcomeBy read mode ctx args t = (.ok result, t)
        ∧ Status t mode o isMatch ctx result.exitCode := by
  intro hall
  have hwell : (Tree.ofFiles [("f", [97, 10])]).WellFormed := by decide +kernel
  have hparse : Options.parse ["-q", "a", "/f", "g"]
      = .ok { pattern := "a", files := ["/f", "g"], silent := true } := by
    cbv
  let isMatch : String → Bool := fun line => line = "a"
  obtain ⟨result, hrun, -⟩ :=
    hall _ grep (contextAt "..") _ (fun _ => .ok isMatch) _ _ hwell hparse rfl
  have hfails : ((searchWith grep { pattern := "a", files := ["/f", "g"], silent := true } isMatch
      (contextAt "..") : WorkspaceM Tree Report) (Tree.ofFiles [("f", [97, 10])])).1.isOk = false := by
    decide +kernel
  obtain ⟨run, -, hsearch⟩ := exists_searchWith hwell grep
    { pattern := "a", files := ["/f", "g"], silent := true } isMatch (contextAt "..")
  rw [hsearch _ rfl] at hfails
  rw [outcomeBy_apply hparse rfl (hsearch _ rfl)] at hrun
  obtain ⟨report, hreport, -⟩ := exists_of_map_eq_ok (congrArg Prod.fst hrun)
  rw [hreport] at hfails
  contradiction

end Search

end Sandshell
