import Sandshell.Proofs.Utility.Search.Lines
import Sandshell.Proofs.Utility.Search.Options
import Sandshell.Proofs.Utility.Search.Targets

/-!
# Reports on a tree

A search of a well-formed tree reads all its targets. Its report is put together from the reports on
them, in order, and from the diagnostics of the operands that stand for none.
-/

namespace Sandshell

namespace Search

open scoped Arithmetic

/-! ## What options ask for -/

namespace Options

/-- The operands of a search; the working directory stands for none. -/
def operands (o : Options) : List String :=
  if o.files.isEmpty then ["."] else o.files

/-- Directories are searched too. -/
def recurses (o : Options) (mode : Mode) : Bool :=
  o.recursive || mode.recursive

/-- The input is searched, for want of operands. -/
def readsInput (o : Options) (mode : Mode) (stdin : Bytes) : Bool :=
  o.files.isEmpty && !(mode.recursive && stdin.isEmpty)

end Options

variable {t : Tree} {mode : Mode} {recursive : Bool} {o o' : Options} {isMatch : String → Bool}
variable {collected : List (Except String (List Target))} {cwd : String}
variable {operands : List String} {target : Target}

/-! ## Reports put together -/

/-- Reports that are put together print one after the other. -/
theorem foldl_append (r : Report) (reports : List Report) : reports.foldl Report.append r =
    { out := r.out ++ String.join (reports.map (·.out))
      err := r.err ++ String.join (reports.map (·.err))
      matched := r.matched || reports.any (·.matched)
      total := r.total + (reports.map (·.total)).sum } := by
  induction reports generalizing r with
  | nil => simp
  | cons first rest ih =>
    rw [List.foldl_cons, ih]
    simp [Report.append, String.join_cons, String.append_assoc, Bool.or_assoc, Nat.add_assoc]

@[simp] theorem fileReport_err (o : Options) (isMatch : String → Bool) (filename : Option String)
    (display text : String) : (fileReport o isMatch filename display text).err = "" := by
  unfold fileReport
  dsimp only
  split
  · split <;> rfl
  · rfl

@[simp] theorem fileReport_matched (o : Options) (isMatch : String → Bool)
    (filename : Option String) (display text : String) :
    (fileReport o isMatch filename display text).matched = found o isMatch text := by
  unfold fileReport
  dsimp only
  split
  · split <;> rfl
  · rfl

/-! ## Searches of targets -/

/-- What is said of operands that stand for nothing. -/
def refusals (mode : Mode) (collected : List (Except String (List Target))) : List String :=
  collected.filterMap fun
    | .error e => some (mode.name ++ ": " ++ e ++ "\n")
    | .ok _ => none

/-- The targets that operands stand for. -/
def targetsOf (collected : List (Except String (List Target))) : List Target :=
  collected.flatMap fun
    | .error _ => []
    | .ok found => found

/-- The text of the file behind a target. -/
def Target.text (t : Tree) (target : Target) : String :=
  ((t.read target.path).toOption.getD []).lossyText

/-- Names stand in front of what is printed. -/
def showsNames (mode : Mode) (o : Options) (found : List Target) : Bool :=
  mode.recursive || 1 < found.length || o.withFilename || (o.recursive || mode.recursive)

/-- The name that stands in front of what is printed of a target. -/
def shownName (mode : Mode) (o : Options) (found : List Target) (target : Target) : Option String :=
  if showsNames mode o found then some target.display else none

/-- The reports on targets. -/
def targetReports (t : Tree) (mode : Mode) (o : Options) (isMatch : String → Bool)
    (found : List Target) : List Report :=
  found.map fun target =>
    fileReport o isMatch (shownName mode o found target) target.display (target.text t)

/-- The report on operands. -/
def operandsReport (t : Tree) (mode : Mode) (o : Options) (isMatch : String → Bool)
    (collected : List (Except String (List Target))) : Report where
  out := String.join ((targetReports t mode o isMatch (targetsOf collected)).map (·.out))
    ++ if o.count && !showsNames mode o (targetsOf collected) then
        toString ((targetReports t mode o isMatch (targetsOf collected)).map (·.total)).sum ++ "\n"
      else ""
  err := String.join (refusals mode collected)
  matched := (targetsOf collected).any fun target => found o isMatch (target.text t)
  total := ((targetReports t mode o isMatch (targetsOf collected)).map (·.total)).sum

/-- A file that can be read is reported by its text. -/
theorem searchFile_apply {target : Target} {data : Bytes} (h : t.read target.path = .ok data)
    (showName : Bool) : (searchFile mode o isMatch showName target : WorkspaceM Tree Report) t
      = (.ok (fileReport o isMatch (if showName then some target.display else none) target.display
        (target.text t)), t) := by
  have hread : observing (Workspace.read target.path : WorkspaceM Tree Bytes) t
      = (.ok (.ok data), t) := by
    show (Except.ok (t.read target.path), t) = _
    rw [h]
  rw [searchFile, bind_apply_ok hread, Target.text, h]
  rfl

theorem join_replicate_empty (n : Nat) : String.join (List.replicate n "") = "" := by
  induction n with
  | zero => rfl
  | succ n ih => rw [List.replicate_succ, String.join_cons, ih, String.empty_append]

/-- Searched targets add no diagnostics. -/
theorem foldl_targetReports (t : Tree) (mode : Mode) (o : Options) (isMatch : String → Bool)
    (targets : List Target) (err : String) :
    (targetReports t mode o isMatch targets).foldl Report.append { err } =
      { out := String.join ((targetReports t mode o isMatch targets).map (·.out))
        err
        matched := targets.any fun target => found o isMatch (target.text t)
        total := ((targetReports t mode o isMatch targets).map (·.total)).sum } := by
  have herr : String.join ((targetReports t mode o isMatch targets).map (·.err)) = "" := by
    simp [targetReports, Function.comp_def, join_replicate_empty]
  have hmatched : (targetReports t mode o isMatch targets).any (·.matched)
      = targets.any fun target => found o isMatch (target.text t) := by
    simp [targetReports, List.any_map, Function.comp_def]
  rw [foldl_append, herr, hmatched]
  simp

/-! ## What operands come to -/

/-- Each operand came to the result at its place. -/
def AreCollected (t : Tree) (mode : Mode) (recursive : Bool) (cwd : String)
    (operands : List String) (collected : List (Except String (List Target))) : Prop :=
  List.Forall₂ (fun operand result => Collected t mode recursive cwd operand (.ok result)) operands
    collected

/-- Each operand has a result. -/
theorem AreCollected.of_operand (h : AreCollected t mode recursive cwd operands collected) :
    ∀ operand ∈ operands, ∃ result ∈ collected,
      Collected t mode recursive cwd operand (.ok result) := by
  induction h with
  | nil => exact List.forall_mem_nil _
  | cons hfirst _ ih =>
    simp only [List.forall_mem_cons, List.exists_mem_cons_iff]
    exact ⟨.inl hfirst, fun operand hmem => .inr (ih operand hmem)⟩

/-- Each result comes from an operand. -/
theorem AreCollected.of_result (h : AreCollected t mode recursive cwd operands collected) :
    ∀ result ∈ collected, ∃ operand ∈ operands,
      Collected t mode recursive cwd operand (.ok result) := by
  induction h with
  | nil => exact List.forall_mem_nil _
  | cons hfirst _ ih =>
    simp only [List.forall_mem_cons, List.exists_mem_cons_iff]
    exact ⟨.inl hfirst, fun result hmem => .inr (ih result hmem)⟩

/-- Refused operands differ in what is said of them alone. -/
theorem AreCollected.targetsOf_unique {collected' : List (Except String (List Target))}
    (hwell : t.WellFormed) (h : AreCollected t mode recursive cwd operands collected)
    (h' : AreCollected t mode recursive cwd operands collected') :
    targetsOf collected = targetsOf collected' := by
  induction h generalizing collected' with
  | nil =>
    cases h'
    rfl
  | cons hfirst _ ih =>
    cases h' with
    | cons hfirst' hrest' =>
      rw [targetsOf, targetsOf, List.flatMap_cons, List.flatMap_cons]
      refine congrArg₂ (· ++ ·) ?_ (ih hrest')
      cases hfirst with
      | refused hrefused =>
        cases hfirst' with
        | refused => rfl
        | found hgives' => exact absurd hrefused (hgives'.not_refused hwell)
      | found hgives =>
        cases hfirst' with
        | refused hrefused' => exact absurd hrefused' (hgives.not_refused hwell)
        | found hgives' => exact hgives.unique hwell hgives'

/-- Targets are those of the operands without error. -/
theorem mem_targetsOf :
    target ∈ targetsOf collected ↔ ∃ found, .ok found ∈ collected ∧ target ∈ found := by
  rw [targetsOf, List.mem_flatMap]
  constructor
  · rintro ⟨result, hresult, htarget⟩
    cases result with
    | error e => contradiction
    | ok found => exact ⟨found, hresult, htarget⟩
  · rintro ⟨found, hfound, htarget⟩
    exact ⟨.ok found, hfound, htarget⟩

/-- A target that was found is a file that one of the operands reaches. -/
theorem AreCollected.exists_file (hwell : t.WellFormed)
    (h : AreCollected t mode recursive cwd operands collected)
    (htarget : target ∈ targetsOf collected) :
    ∃ operand ∈ operands, ∃ file data, Reaches t mode recursive cwd operand file
      ∧ t.files[file]? = some data ∧ t.read target.path = .ok data := by
  obtain ⟨found, hfound, htarget⟩ := mem_targetsOf.1 htarget
  obtain ⟨operand, hoperand, hcomes⟩ := h.of_result _ hfound
  cases hcomes with
  | found hgives =>
    have hreached := hgives.areReached hwell
    obtain ⟨file, hmem, hnormal⟩ := hreached.stored target htarget
    obtain ⟨data, hdata⟩ := Option.isSome_iff_exists.1 (Std.ExtTreeMap.mem_iff_isSome_getElem?.1 hmem)
    exact ⟨operand, hoperand, file, data, (hreached.reached_iff file).2 ⟨target, htarget, hnormal⟩,
      hdata, Tree.read_eq_ok_iff_node?.2 ⟨file, hnormal, Tree.node?_eq_file_iff.2 hdata⟩⟩

/-- A file that one of the operands reaches is behind a target that was found. -/
theorem AreCollected.exists_target {operand file : String} {data : Bytes} (hwell : t.WellFormed)
    (h : AreCollected t mode recursive cwd operands collected) (hoperand : operand ∈ operands)
    (hreaches : Reaches t mode recursive cwd operand file) (hdata : t.files[file]? = some data) :
    ∃ target ∈ targetsOf collected, t.read target.path = .ok data := by
  obtain ⟨result, hresult, hcomes⟩ := h.of_operand operand hoperand
  cases hcomes with
  | refused hrefused => exact absurd hrefused (hreaches.not_refused hwell)
  | found hgives =>
    obtain ⟨target, htarget, hnormal⟩ := ((hgives.areReached hwell).reached_iff file).1 hreaches
    exact ⟨target, mem_targetsOf.2 ⟨_, hresult, htarget⟩,
      Tree.read_eq_ok_iff_node?.2 ⟨file, hnormal, Tree.node?_eq_file_iff.2 hdata⟩⟩

/-- Diagnostics tell whether an operand was refused. -/
theorem AreCollected.refusals_ne_nil_iff (hwell : t.WellFormed)
    (h : AreCollected t mode recursive cwd operands collected) :
    refusals mode collected ≠ [] ↔ ∃ operand ∈ operands, Refused t recursive cwd operand := by
  rw [refusals, Ne, List.filterMap_eq_nil_iff]
  constructor
  · intro hsome
    by_contra! hnone
    refine hsome fun result hresult => ?_
    obtain ⟨operand, hoperand, hcomes⟩ := h.of_result result hresult
    cases hcomes with
    | refused hrefused => exact absurd hrefused (hnone operand hoperand)
    | found => rfl
  · rintro ⟨operand, hoperand, hrefused⟩ hnone
    obtain ⟨result, hresult, hcomes⟩ := h.of_operand operand hoperand
    cases hcomes with
    | refused => exact absurd (hnone _ hresult) (Option.some_ne_none _)
    | found hgives => exact hgives.not_refused hwell hrefused

/-! ## Reports of searches -/

/-- The search of operands whose targets can be read. -/
theorem searchFiles_apply
    (hcollected : o.operands.mapM (targets mode (o.recurses mode) cwd : _ → WorkspaceM Tree _) t
      = (.ok collected, t))
    (hread : ∀ target ∈ targetsOf collected, ∃ data, t.read target.path = .ok data) :
    (searchFiles mode o isMatch cwd : WorkspaceM Tree Report) t
      = (.ok (operandsReport t mode o isMatch collected), t) := by
  have hsearched : ∀ target ∈ targetsOf collected,
      (searchFile mode o isMatch (showsNames mode o (targetsOf collected)) target :
        WorkspaceM Tree Report) t
      = (.ok (fileReport o isMatch (shownName mode o (targetsOf collected) target) target.display
        (target.text t)), t) := by
    intro target htarget
    obtain ⟨data, hdata⟩ := hread target htarget
    exact searchFile_apply hdata _
  rw [Options.operands, Options.recurses] at hcollected
  rw [searchFiles, bind_apply_ok hcollected]
  show ((targetsOf collected).mapM
    (searchFile mode o isMatch (showsNames mode o (targetsOf collected))) >>= _) t = _
  rw [bind_apply_ok (mapM_apply_ok hsearched)]
  have hreport := foldl_targetReports t mode o isMatch (targetsOf collected)
    (String.join (refusals mode collected))
  exact congrArg (fun report : Report => (Except.ok { report with
    out := report.out ++ if o.count && !showsNames mode o (targetsOf collected) then
      toString report.total ++ "\n" else "" }, t)) hreport

/-- What a search reports, as a function of the options, as long as these ask for the same search. -/
inductive Reported (t : Tree) (mode : Mode) (o : Options) (isMatch : String → Bool)
    (ctx : UtilityContext) : (Options → Except WorkspaceError Report) → Prop
  | invalid {operand path : String} (hfiles : o.readsInput mode ctx.stdin = false)
      (hoperand : operand ∈ o.operands) (hresolve : Path.resolve? ctx.cwd operand = some path)
      (hinvalid : Path.normalize? path = none) :
      Reported t mode o isMatch ctx fun _ => .error (.invalidPath path)
  | input (h : o.readsInput mode ctx.stdin = true) :
      Reported t mode o isMatch ctx fun o' => .ok (inputReport o' isMatch ctx.stdin.lossyText)
  | operands {collected : List (Except String (List Target))}
      (hfiles : o.readsInput mode ctx.stdin = false)
      (hcollected : AreCollected t mode (o.recurses mode) ctx.cwd o.operands collected) :
      Reported t mode o isMatch ctx fun o' => .ok (operandsReport t mode o' isMatch collected)

/-- A search in a well-formed tree runs alike for all options that differ in what is printed. -/
theorem exists_searchWith (h : t.WellFormed) (mode : Mode) (o : Options) (isMatch : String → Bool)
    (ctx : UtilityContext) : ∃ run, Reported t mode o isMatch ctx run ∧
      ∀ o' : Options, o'.plain = o.plain →
        (searchWith mode o' isMatch ctx : WorkspaceM Tree Report) t = (run o', t) := by
  have hsame : ∀ o' : Options, o'.plain = o.plain →
      o'.readsInput mode ctx.stdin = o.readsInput mode ctx.stdin
        ∧ o'.operands = o.operands ∧ o'.recurses mode = o.recurses mode := by
    intro o' hplain
    show o'.plain.readsInput mode ctx.stdin = _ ∧ o'.plain.operands = _ ∧ o'.plain.recurses mode = _
    rw [hplain]
    exact ⟨rfl, rfl, rfl⟩
  by_cases hinput : o.readsInput mode ctx.stdin = true
  · refine ⟨_, .input hinput, fun o' hplain => ?_⟩
    have hreads := (hsame o' hplain).1.trans hinput
    rw [Options.readsInput] at hreads
    rw [searchWith, if_pos hreads]
    rfl
  · rw [Bool.not_eq_true] at hinput
    have hfiles : ∀ o' : Options, o'.plain = o.plain →
        (searchWith mode o' isMatch ctx : WorkspaceM Tree Report)
          = searchFiles mode o' isMatch ctx.cwd := by
      intro o' hplain
      have hreads := (hsame o' hplain).1.trans hinput
      rw [Options.readsInput] at hreads
      rw [searchWith, if_neg (by rw [hreads]; exact Bool.false_ne_true)]
    -- the operands are resolved one by one, and the first path that is no path ends the search
    rcases exists_mapM_apply fun operand (_ : operand ∈ o.operands) =>
      exists_targets h mode (o.recurses mode) ctx.cwd operand with
      ⟨operand, hoperand, e, hfails, hrun⟩ | ⟨collected, hrun, hcollected⟩
    · cases hfails with
      | invalid hresolve hinvalid =>
        refine ⟨_, .invalid hinput hoperand hresolve hinvalid, fun o' hplain => ?_⟩
        obtain ⟨-, hoperands, hrecurses⟩ := hsame o' hplain
        rw [← hoperands, ← hrecurses] at hrun
        rw [hfiles o' hplain, searchFiles]
        exact bind_apply_error hrun
    · change AreCollected t mode (o.recurses mode) ctx.cwd o.operands collected at hcollected
      refine ⟨_, .operands hinput hcollected, fun o' hplain => ?_⟩
      obtain ⟨-, hoperands, hrecurses⟩ := hsame o' hplain
      rw [← hoperands, ← hrecurses] at hrun
      rw [hfiles o' hplain]
      refine searchFiles_apply hrun fun target htarget => ?_
      obtain ⟨-, -, -, data, -, -, hread⟩ := hcollected.exists_file h htarget
      exact ⟨data, hread⟩

end Search

end Sandshell
