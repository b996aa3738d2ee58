import Sandshell.Proofs.Path.Segments
import Sandshell.Proofs.Shell.Simple

/-!
# Variables and the working directory

No command gives a variable to the shell that is also exported, so an assignment is what a lookup
finds. Names come into the environment by being exported and in no other way.
-/

namespace Sandshell

open Sandshell.Path (IsNormal)

namespace ShellState

variable {s s' : ShellState} {name value : String}

/-- The working directory is normal, no variable is both exported and the shell's own, and the
shell's own have names. -/
structure Consistent (s : ShellState) : Prop where
  normal : IsNormal s.cwd
  apart : ∀ name ∈ s.env, name ∉ s.vars
  isName : ∀ name ∈ s.vars, Word.isName name

/-- A new state is consistent. -/
theorem consistent_fresh {env : Environment} {cwd : String} (h : IsNormal cwd) :
    ({ env, cwd } : ShellState).Consistent :=
  ⟨h, fun _ _ => Std.ExtTreeMap.not_mem_empty,
    fun _ hname => absurd hname Std.ExtTreeMap.not_mem_empty⟩

/-! ## Assignments -/

/-- An assignment exports nothing. -/
theorem mem_env_assign {other : String} :
    other ∈ (s.assign name value).env ↔ other ∈ s.env := by
  unfold assign
  split
  · next hexported =>
    rw [Std.ExtTreeMap.mem_insert, Std.compare_eq_iff_eq]
    constructor
    · rintro (rfl | hmem)
      · exact Std.ExtTreeMap.mem_iff_contains.2 hexported
      · exact hmem
    · exact .inr
  · exact Iff.rfl

/-- An assignment changes exported variables in both places. -/
theorem Consistent.assign (h : s.Consistent) (hname : Word.isName name) (value : String) :
    (s.assign name value).Consistent := by
  unfold ShellState.assign
  split
  · next hexported =>
    refine ⟨h.normal, fun other hother => ?_, h.isName⟩
    rw [Std.ExtTreeMap.mem_insert, Std.compare_eq_iff_eq] at hother
    rcases hother with rfl | hother
    · exact h.apart _ (Std.ExtTreeMap.mem_iff_contains.2 hexported)
    · exact h.apart _ hother
  · next hown =>
    refine ⟨h.normal, fun other hother hvars => ?_, fun other hother => ?_⟩
    · rw [Std.ExtTreeMap.mem_insert, Std.compare_eq_iff_eq] at hvars
      rcases hvars with rfl | hvars
      · exact hown (Std.ExtTreeMap.mem_iff_contains.1 hother)
      · exact h.apart _ hother hvars
    · rw [Std.ExtTreeMap.mem_insert, Std.compare_eq_iff_eq] at hother
      rcases hother with rfl | hother
      · exact hname
      · exact h.isName _ hother

/-- An assignment looks at the exported variables first and a lookup at them last; since no variable
is in both places, the lookup finds what was assigned. -/
theorem Consistent.lookup_assign (h : s.Consistent) (name value : String) :
    (s.assign name value).lookup name = some value := by
  unfold ShellState.assign
  split
  · next hexported =>
    have hown : s.vars[name]? = none :=
      Std.ExtTreeMap.getElem?_eq_none (h.apart _ (Std.ExtTreeMap.mem_iff_contains.2 hexported))
    rw [lookup, hown, Std.ExtTreeMap.getElem?_insert_self]
    rfl
  · rw [lookup, Std.ExtTreeMap.getElem?_insert_self]
    rfl

/-- Other variables stay as they are. -/
theorem lookup_assign_of_ne {other : String} (h : name ≠ other) :
    (s.assign name value).lookup other = s.lookup other := by
  have hcompare : compare name other ≠ .eq := fun heq => h (Std.compare_eq_iff_eq.1 heq)
  unfold ShellState.assign
  split
  · rw [lookup, lookup, Std.ExtTreeMap.getElem?_insert, if_neg hcompare]
  · rw [lookup, lookup, Std.ExtTreeMap.getElem?_insert, if_neg hcompare]

variable {values : List (String × String)}

/-- Assignments export nothing. -/
theorem mem_env_assignAll {other : String} :
    other ∈ (s.assignAll values).env ↔ other ∈ s.env := by
  induction values generalizing s with
  | nil => exact Iff.rfl
  | cons assignment rest ih => exact ih.trans mem_env_assign

/-- They do not move the working directory. -/
theorem cwd_assignAll : (s.assignAll values).cwd = s.cwd := by
  induction values generalizing s with
  | nil => rfl
  | cons assignment rest ih =>
    refine ih.trans (show (s.assign assignment.1 assignment.2).cwd = s.cwd from ?_)
    unfold ShellState.assign
    split <;> rfl

/-- Assignments keep a state consistent. -/
theorem Consistent.assignAll (h : s.Consistent) (hnames : ∀ a ∈ values, Word.isName a.1) :
    (s.assignAll values).Consistent := by
  induction values generalizing s with
  | nil => exact h
  | cons assignment rest ih =>
    rw [List.forall_mem_cons] at hnames
    exact ih (h.assign hnames.1 _) hnames.2

/-- A name that is not assigned keeps its value. -/
theorem lookup_assignAll_of_not_mem (h : name ∉ values.map Prod.fst) :
    (s.assignAll values).lookup name = s.lookup name := by
  induction values generalizing s with
  | nil => rfl
  | cons assignment rest ih =>
    rw [List.map_cons, List.mem_cons, not_or] at h
    exact (ih h.2).trans (lookup_assign_of_ne (Ne.symm h.1))

/-- Of several assignments to a name the last one counts. -/
theorem Consistent.lookup_assignAll (h : s.Consistent) {before after : List (String × String)}
    (hnames : ∀ a ∈ before, Word.isName a.1) (hlast : name ∉ after.map Prod.fst) :
    (s.assignAll (before ++ (name, value) :: after)).lookup name = some value := by
  have hassign : s.assignAll (before ++ (name, value) :: after)
      = ((s.assignAll before).assign name value).assignAll after := by
    simp only [ShellState.assignAll, List.foldl_append, List.foldl_cons]
  rw [hassign, lookup_assignAll_of_not_mem hlast, (h.assignAll hnames).lookup_assign]

end ShellState

/-- From a normal directory all paths that are resolved are normal. -/
theorem isNormal_of_resolvePath {cwd operand path : String} (hcwd : IsNormal cwd)
    (h : resolvePath cwd operand = .ok path) : IsNormal path := by
  unfold resolvePath at h
  split at h
  · next hresolve =>
    cases h
    exact Path.isNormal_of_resolve? hcwd hresolve
  · cases h

/-! ## Builtins -/

namespace Builtin

open ShellState (Consistent)

variable {s s' : ShellState} {args : List String} {b : Builtin} {name : String}

/-- The name that an argument exports. -/
def exportedName (argument : String) : String :=
  ((Text.splitFirst? '=' argument).map Prod.fst).getD argument

/-- What is exported is a name, with the value given or the one it has. -/
theorem of_export_eq_some (name : String) (given? : Option String) (h : (if Word.isName name then
      some { s with
        env := match given?.or s.vars[name]? with
          | some value => s.env.insert name value
          | none => s.env
        vars := s.vars.erase name }
      else none) = some s') :
    s'.cwd = s.cwd ∧ s'.vars = s.vars.erase name
      ∧ ∀ other ∈ s'.env, other ∈ s.env ∨ other = name := by
  split at h
  · cases h
    refine ⟨rfl, rfl, fun other hother => ?_⟩
    dsimp only at hother
    split at hother
    · rw [Std.ExtTreeMap.mem_insert, Std.compare_eq_iff_eq] at hother
      exact hother.elim (fun heq => .inr heq.symm) .inl
    · exact .inl hother
  · cases h

/-- An argument exports one name, which is then no variable of the shell's own. -/
theorem exportOne?_eq_some {argument : String} (h : exportOne? s argument = some s') :
    s'.cwd = s.cwd ∧ s'.vars = s.vars.erase (exportedName argument)
      ∧ ∀ name ∈ s'.env, name ∈ s.env ∨ name = exportedName argument := by
  unfold exportOne? at h
  unfold exportedName
  cases hsplit : Text.splitFirst? '=' argument with
  | none =>
    rw [hsplit] at h
    exact of_export_eq_some argument none h
  | some parts =>
    rw [hsplit] at h
    exact of_export_eq_some parts.1 (some parts.2) h

/-- Exporting keeps a state consistent. -/
theorem consistent_exportOne? {argument : String} (h : exportOne? s argument = some s')
    (hs : s.Consistent) : s'.Consistent := by
  obtain ⟨hcwd, hvars, henv⟩ := exportOne?_eq_some h
  refine ⟨hcwd ▸ hs.normal, fun name hname hown => ?_, fun name hown => ?_⟩
  · rw [hvars, Std.ExtTreeMap.mem_erase, ne_eq, Std.compare_eq_iff_eq] at hown
    rcases henv name hname with hold | rfl
    · exact hs.apart name hold hown.2
    · exact hown.1 rfl
  · rw [hvars, Std.ExtTreeMap.mem_erase] at hown
    exact hs.isName name hown.2

/-- Exporting keeps the state consistent and exports the names of its arguments alone. -/
theorem exportAll_spec (arguments : List String) (s : ShellState) :
    (s.Consistent → (exportAll s arguments).2.Consistent)
      ∧ ∀ name ∈ (exportAll s arguments).2.env,
        name ∈ s.env ∨ name ∈ arguments.map exportedName := by
  induction arguments generalizing s with
  | nil => exact ⟨id, fun _ hname => .inl hname⟩
  | cons argument rest ih =>
    rw [exportAll]
    cases hone : exportOne? s argument with
    | none =>
      obtain ⟨hconsistent, henv⟩ := ih s
      exact ⟨hconsistent, fun name hname => (henv name hname).imp_right (List.mem_cons_of_mem _)⟩
    | some s' =>
      obtain ⟨hconsistent, henv⟩ := ih s'
      obtain ⟨-, -, hnew⟩ := exportOne?_eq_some hone
      refine ⟨fun hs => hconsistent (consistent_exportOne? hone hs), fun name hname => ?_⟩
      rcases henv name hname with hmid | hrest
      · exact (hnew name hmid).imp_right fun heq => List.mem_cons.2 (.inl heq)
      · exact .inr (List.mem_cons_of_mem _ hrest)

/-- It exports only what it is told to. -/
theorem exportVariables_spec (args : List String) (s : ShellState) :
    (s.Consistent → (exportVariables args s).2.Consistent)
      ∧ ∀ name ∈ (exportVariables args s).2.env, name ∈ s.env ∨ name ∈ args.map exportedName := by
  unfold exportVariables
  split
  · exact ⟨id, fun _ hname => .inl hname⟩
  · obtain ⟨hconsistent, henv⟩ := exportAll_spec (args.filter (· ≠ "-p")) s
    refine ⟨hconsistent, fun name hname => (henv name hname).imp_right fun hmem => ?_⟩
    obtain ⟨argument, hargument, rfl⟩ := List.mem_map.1 hmem
    exact List.mem_map_of_mem (List.mem_of_mem_filter hargument)

/-- Unsetting exports nothing and keeps a state consistent. -/
theorem unsetVariables_spec (args : List String) (s : ShellState) :
    (s.Consistent → (unsetVariables args s).2.Consistent)
      ∧ ∀ name ∈ (unsetVariables args s).2.env, name ∈ s.env := by
  unfold unsetVariables
  dsimp only
  generalize args.filter (!startsWith '-' ·) = names
  induction names generalizing s with
  | nil => exact ⟨id, fun _ => id⟩
  | cons forgotten rest ih =>
    obtain ⟨hconsistent, henv⟩ :=
      ih { s with vars := s.vars.erase forgotten, env := s.env.erase forgotten }
    refine ⟨fun hs => hconsistent ⟨hs.normal, fun name hname hown => ?_, fun name hown => ?_⟩,
      fun name hname => (Std.ExtTreeMap.mem_erase.1 (henv name hname)).2⟩
    · exact hs.apart name (Std.ExtTreeMap.mem_erase.1 hname).2 (Std.ExtTreeMap.mem_erase.1 hown).2
    · exact hs.isName name (Std.ExtTreeMap.mem_erase.1 hown).2

/-- What a builtin with arguments can make of a state. -/
inductive Changes : Builtin → List String → ShellState → ShellState → Prop
  | same (b : Builtin) (args : List String) (s : ShellState) : Changes b args s s
  | home (args : List String) (s : ShellState) : Changes .cd args s { s with cwd := "" }
  | entered {target path : String} {s : ShellState} (h : resolvePath s.cwd target = .ok path) :
    Changes .cd [target] s (enter s path)
  | exported (args : List String) (s : ShellState) :
    Changes .exportNames args s (exportVariables args s).2
  | forgotten (args : List String) (s : ShellState) :
    Changes .unsetNames args s (unsetVariables args s).2
  | positional (b : Builtin) (args : List String) (s : ShellState) (positional : List String) :
    Changes b args s { s with positional }

/-- So does every builtin. -/
theorem Changes.consistent (h : Changes b args s s') (hs : s.Consistent) : s'.Consistent := by
  cases h with
  | same => exact hs
  | home => exact ⟨Path.isNormal_empty, hs.apart, hs.isName⟩
  | @entered target path _ hpath =>
    refine ⟨isNormal_of_resolvePath hs.normal hpath, fun name hname => ?_, hs.isName⟩
    unfold enter at hname
    dsimp only at hname
    split at hname
    · next hexported =>
      rw [Std.ExtTreeMap.mem_insert, Std.compare_eq_iff_eq] at hname
      rcases hname with rfl | hname
      · exact hs.apart _ (Std.ExtTreeMap.mem_iff_contains.2 hexported)
      · exact hs.apart _ hname
    · exact hs.apart _ hname
  | exported => exact (exportVariables_spec args s).1 hs
  | forgotten => exact (unsetVariables_spec args s).1 hs
  | positional => exact ⟨hs.normal, hs.apart, hs.isName⟩

/-- A name that is new in the environment was exported. -/
theorem Changes.mem_env (h : Changes b args s s') (hname : name ∈ s'.env) :
    name ∈ s.env ∨ b = .exportNames ∧ name ∈ args.map exportedName := by
  cases h with
  | same => exact .inl hname
  | home => exact .inl hname
  | entered =>
    unfold enter at hname
    dsimp only at hname
    split at hname
    · next hexported =>
      rw [Std.ExtTreeMap.mem_insert, Std.compare_eq_iff_eq] at hname
      rcases hname with rfl | hname
      · exact .inl (Std.ExtTreeMap.mem_iff_contains.2 hexported)
      · exact .inl hname
    · exact .inl hname
  | exported => exact ((exportVariables_spec args s).2 name hname).imp_right (⟨rfl, ·⟩)
  | forgotten => exact .inl ((unsetVariables_spec args s).2 name hname)
  | positional => exact .inl hname

/-- Exporting does not move the working directory. -/
theorem cwd_exportVariables (args : List String) (s : ShellState) :
    (exportVariables args s).2.cwd = s.cwd := by
  have hall : ∀ (arguments : List String) (s : ShellState),
      (exportAll s arguments).2.cwd = s.cwd := by
    intro arguments
    induction arguments with
    | nil => exact fun s => rfl
    | cons argument rest ih =>
      intro s
      rw [exportAll]
      cases hone : exportOne? s argument with
      | none => exact ih s
      | some s' => exact (ih s').trans (exportOne?_eq_some hone).1
  unfold exportVariables
  split
  · rfl
  · exact hall _ s

theorem cwd_unsetVariables (args : List String) (s : ShellState) :
    (unsetVariables args s).2.cwd = s.cwd := by
  unfold unsetVariables
  dsimp only
  generalize args.filter (!startsWith '-' ·) = names
  induction names generalizing s with
  | nil => rfl
  | cons forgotten rest ih => exact ih _

/-- The working directory stays unless it changes to the root or to where a path leads. -/
theorem Changes.cwd (h : Changes b args s s') :
    s'.cwd = s.cwd ∨ s'.cwd = "" ∨ ∃ target, resolvePath s.cwd target = .ok s'.cwd := by
  cases h with
  | same => exact .inl rfl
  | home => exact .inr (.inl rfl)
  | entered hpath => exact .inr (.inr ⟨_, hpath⟩)
  | exported => exact .inl (cwd_exportVariables args s)
  | forgotten => exact .inl (cwd_unsetVariables args s)
  | positional => exact .inl rfl

/-- Setting positional parameters changes these only. -/
theorem changes_setPositional (b : Builtin) (args : List String) (s : ShellState) :
    Changes b args s (setPositional args s).2 := by
  unfold setPositional
  split
  · exact .same _ _ _
  · split
    · exact .positional _ _ _ _
    · split
      · exact .same _ _ _
      · exact .positional _ _ _ _

/-- Shifting them does too. -/
theorem changes_shiftPositional (b : Builtin) (args : List String) (s : ShellState) :
    Changes b args s (shiftPositional args s).2 := by
  have hdrop : ∀ count, Changes b args s (shiftPositional.drop s count).2 := by
    intro count
    unfold shiftPositional.drop
    split
    · exact .same _ _ _
    · exact .positional _ _ _ _
  unfold shiftPositional
  split
  · exact hdrop 1
  · split
    · exact hdrop _
    · exact .same _ _ _

variable {W : Type}

theorem changes_updating {f : ShellState → CommandOutcome × ShellState} {s : Session W}
    (h : Changes b args s.state (f s.state).2) :
    Changes b args s.state (updating f s).2.state :=
  h

variable [Workspace W]

/-- A new directory is set together with its variables. -/
theorem changes_changeDirectory (args : List String) (s : Session W) :
    Changes .cd args s.state (changeDirectory args s).2.state := by
  unfold changeDirectory
  split
  · exact .home _ _
  · next target =>
    rw [bind_apply_ok (show ShellM.state s = (.ok s.state, s) from rfl)]
    cases hpath : resolvePath s.state.cwd target with
    | error e => exact .same _ _ _
    | ok path =>
      dsimp only
      split
      · have hstat := Run.state_of_still (Run.still_onWorkspace (Workspace.stat path)) s
        rcases h : ShellM.onWorkspace (Workspace.stat path) s with ⟨e | found, s'⟩
        · rw [h] at hstat
          rw [bind_apply_error h]
          exact hstat ▸ .same _ _ _
        · rw [h] at hstat
          rw [bind_apply_ok h]
          dsimp only at hstat ⊢
          cases found with
          | none => exact hstat ▸ .same _ _ _
          | some stat =>
            dsimp only
            split
            · exact hstat ▸ .same _ _ _
            · have hentered : Changes .cd [target] s'.state (enter s'.state path) :=
                .entered (hstat.symm ▸ hpath)
              exact hstat ▸ hentered
      · exact .entered hpath
  · exact .same _ _ _

/-- A test changes nothing. -/
theorem changes_testArguments (b : Builtin) (args tested : List String) (s : Session W) :
    Changes b args s.state (testArguments tested s).2.state := by
  have hstate : (testArguments tested s).2.state = s.state :=
    Run.state_of_still (Run.still_onWorkspace (Condition.outcome s.state.cwd tested)) s
  exact hstate ▸ .same _ _ _

/-- Builtins make no other changes. -/
theorem changes_run (b : Builtin) (delegated : String → Bool) (args : List String) (s : Session W) :
    Changes b args s.state (b.run delegated args s).2.state := by
  cases b with
  | colon => exact .same _ _ _
  | succeed => exact .same _ _ _
  | fail => exact .same _ _ _
  | cd => exact changes_changeDirectory args s
  | pwd => exact .same _ _ _
  | exportNames => exact changes_updating (.exported _ _)
  | unsetNames => exact changes_updating (.forgotten _ _)
  | setParameters => exact changes_updating (changes_setPositional _ _ _)
  | shiftParameters => exact changes_updating (changes_shiftPositional _ _ _)
  | test => exact changes_testArguments _ args _ s
  | bracket =>
    unfold run
    dsimp only
    split
    · exact changes_testArguments _ args _ s
    · exact .same _ _ _
  | command => exact .same _ _ _

end Builtin

end Sandshell
