import Sandshell.Proofs.Shell.Visit

/-!
# The state of a shell throughout its scripts

From a fresh state on, whatever scripts are run, every part of them finds and leaves a consistent
state, at every depth of groups and substitutions and also where stages fail.
-/

namespace Sandshell

open Relation (ReflTransGen)
open Sandshell.Path (IsNormal)
open ShellState (Consistent)

variable {W : Type} [Workspace W] {sh : Shell W}

/-! ## Simple commands -/

namespace Run

variable {substitute : Substitute W} {words : List Word} {s s' : Session W}

theorem isName_of_splitAssignments (words : List Word) :
    ∀ a ∈ (splitAssignments words).1, Word.isName a.1 := by
  intro a ha
  obtain ⟨w, -, hassignment⟩ := exists_word_of_mem_splitAssignments ha
  obtain ⟨text, front, rest, -, hname, -⟩ := Word.exists_of_assignment? hassignment
  exact hname

/-- The names that are given values are those of the assignments, in their order. -/
theorem names_of_expansion {values : List (String × String)} {argv : List String}
    {diagnostics : Bytes}
    (h : expansion substitute words s = (.ok ((values, argv), diagnostics), s')) :
    values.map Prod.fst = (splitAssignments words).1.map Prod.fst := by
  -- each assignment gives one value under its own name
  have hvalues : ∀ (ctx : ExpandContext W) (assignments : List (String × Word))
      (values : List (String × String)) (e e' : Expanding W),
      (assignments.mapM fun (a : String × Word) => return (a.1, ← Expand.toText ctx a.2)) e
        = (.ok values, e') → values.map Prod.fst = assignments.map Prod.fst := by
    intro ctx assignments
    induction assignments with
    | nil =>
      intro values e e' hrun
      cases hrun
      rfl
    | cons assignment rest ih =>
      intro values e e' hrun
      rw [List.mapM_cons] at hrun
      obtain ⟨value, e₁, hvalue, hrun⟩ := exists_of_bind_apply_ok hrun
      obtain ⟨others, e₂, hothers, hlast⟩ := exists_of_bind_apply_ok hrun
      obtain ⟨text, e₃, -, hpair⟩ := exists_of_bind_apply_ok hvalue
      cases hlast
      cases hpair
      rw [List.map_cons, List.map_cons, ih _ _ _ hothers]
  rw [expansion, expand, bind_apply_ok (show ShellM.state s = (.ok s.state, s) from rfl),
    ShellM.expanding] at h
  split at h
  · next hstep =>
    cases h
    obtain ⟨values', e₁, hrun, hrest⟩ := exists_of_bind_apply_ok hstep
    obtain ⟨argv', e₂, -, hlast⟩ := exists_of_bind_apply_ok hrest
    cases hlast
    exact hvalues _ _ _ _ _ hrun
  · cases h

/-- Only a builtin changes the state, and the values before a command do not matter to it. -/
theorem state_of_named (values : List (String × String)) (name : String) (args : List String)
    (stdin : Bytes) (s : Session W) :
    (named sh values name args stdin s).2.state =
      match Builtin.named? name with
      | some b => (b.run sh.delegated args s).2.state
      | none => s.state := by
  rw [named, bind_apply_ok (show ShellM.state s = (.ok s.state, s) from rfl)]
  cases hname : Builtin.named? name with
  | some b =>
    have hfind : Provider.find? sh.delegated name = some (.builtin b) := by
      rw [Provider.find?, hname]
    simp only [hfind]
  | none =>
    rcases hfind : Provider.find? sh.delegated name with _ | (b | _ | u)
    · rfl
    · unfold Provider.find? at hfind
      rw [hname] at hfind
      dsimp only at hfind
      split at hfind
      · cases hfind
      · obtain ⟨u, -, hu⟩ := Option.map_eq_some_iff.1 hfind
        cases hu
    · cases sh.delegate? with
      | none => rfl
      | some d =>
        exact state_of_still ((still_onWorkspaceOr _ _).bind fun _ => Law.obeys_pure _) s
    · exact state_of_still (still_onWorkspaceOr _ _) s

/-- What a simple command does to the state. -/
theorem state_of_simple (words : List Word) (stdin : Bytes) (s : Session W) :
    (simple sh substitute words stdin s).2.state =
      match expansion substitute words s with
      | (.error _, _) => s.state
      | (.ok ((values, []), _), _) => s.state.assignAll values
      | (.ok ((_, name :: args), _), s₁) => (named sh [] name args stdin s₁).2.state := by
  have hexpanded := state_of_expansion substitute words s
  rw [simple_apply]
  rcases h : expansion substitute words s with ⟨e | ⟨⟨values, _ | ⟨name, args⟩⟩, diagnostics⟩, s₁⟩
  · rw [h] at hexpanded
    exact hexpanded
  · rw [h] at hexpanded
    exact congrArg (·.assignAll values) hexpanded
  · dsimp only
    have hvalues : (named sh values name args stdin s₁).2.state
        = (named sh [] name args stdin s₁).2.state := by
      rw [state_of_named, state_of_named]
    rw [← hvalues]
    rcases named sh values name args stdin s₁ with ⟨e | outcome, s₂⟩
    · rfl
    · rfl

/-- No other name runs `export` -/
theorem named?_eq_exportNames {name : String} (h : Builtin.named? name = some .exportNames) :
    name = "export" := by
  unfold Builtin.named? at h
  split at h <;> first | rfl | cases h

end Run

namespace Visit

variable {v u : Visit W}

/-- The visit is one of a command that expands to `export` with an argument for the name. -/
def Exports (sh : Shell W) (v : Visit W) (name : String) : Prop :=
  ∃ words stdin values args diagnostics s', v.activity = .simple words stdin
    ∧ Run.expansion (sh.substitute v.depth) words v.before
      = (.ok ((values, "export" :: args), diagnostics), s')
    ∧ name ∈ args.map Builtin.exportedName

/-- What a simple command does: it assigns, it does what a builtin can do, or it does nothing. -/
theorem simple_spec {words : List Word} {stdin : Bytes} (hv : v.activity = .simple words stdin) :
    (v.before.state.Consistent → (v.after sh).state.Consistent)
      ∧ ∀ name ∈ (v.after sh).state.env, name ∈ v.before.state.env ∨ v.Exports sh name := by
  have hafter : (v.after sh).state
      = (Run.simple sh (sh.substitute v.depth) words stdin v.before).2.state := by
    rw [after, hv]
    rfl
  have hexpanded := Run.state_of_expansion (sh.substitute v.depth) words v.before
  rw [hafter, Run.state_of_simple]
  rcases hrun : Run.expansion (sh.substitute v.depth) words v.before with
    ⟨e | ⟨⟨values, _ | ⟨name, args⟩⟩, diagnostics⟩, s₁⟩
  · exact ⟨id, fun _ hname => .inl hname⟩
  -- assignments alone name what they assign, and export nothing
  · have hnames : ∀ a ∈ values, Word.isName a.1 := by
      intro a ha
      have hmem : a.1 ∈ (Run.splitAssignments words).1.map Prod.fst :=
        Run.names_of_expansion hrun ▸ List.mem_map_of_mem ha
      obtain ⟨a', ha', heq⟩ := List.mem_map.1 hmem
      exact heq ▸ Run.isName_of_splitAssignments words a' ha'
    exact ⟨fun h => h.assignAll hnames, fun _ hname => .inl (ShellState.mem_env_assignAll.1 hname)⟩
  · rw [hrun] at hexpanded
    dsimp only at hexpanded ⊢
    rw [Run.state_of_named]
    cases hname : Builtin.named? name with
    | none => exact ⟨fun h => hexpanded.symm ▸ h, fun _ hmem => .inl (hexpanded ▸ hmem)⟩
    | some b =>
      have hchanges := Builtin.changes_run b sh.delegated args s₁
      rw [hexpanded] at hchanges
      refine ⟨hchanges.consistent, fun other hother => (hchanges.mem_env hother).imp_right ?_⟩
      rintro ⟨rfl, hargs⟩
      obtain rfl := Run.named?_eq_exportNames hname
      exact ⟨words, stdin, values, args, diagnostics, s₁, hv, hrun, hargs⟩

/-! ## All parts of a script -/

/-- A consistent state is consistent after the visit. -/
theorem consistent_after (h : v.before.state.Consistent) : (v.after sh).state.Consistent := by
  have hcomposes : ShellState.Composes fun s s' => s.Consistent → s'.Consistent :=
    ⟨fun _ => id, fun h h' hs => h' (h hs), fun _ _ hs => ⟨hs.normal, hs.apart, hs.isName⟩⟩
  exact related_after hcomposes v (fun u _ words stdin hu => (simple_spec hu).1) h

/-- A name that is new in the environment was exported by a command on the way. -/
theorem exists_exports_of_mem_env {name : String} (hafter : name ∈ (v.after sh).state.env)
    (hbefore : name ∉ v.before.state.env) :
    ∃ u, ReflTransGen (Runs sh) v u ∧ u.Exports sh name := by
  have hcomposes : ShellState.Composes fun s s' => name ∈ s'.env → name ∈ s.env
      ∨ ∃ u, ReflTransGen (Runs sh) v u ∧ u.Exports sh name :=
    ⟨fun _ => .inl, fun h h' hmem => (h' hmem).elim h .inr, fun _ _ => .inl⟩
  refine (related_after hcomposes v (fun u hreach words stdin hu hmem => ?_) hafter).resolve_left
    hbefore
  exact ((simple_spec hu).2 name hmem).imp_right fun hexports => ⟨u, hreach, hexports⟩

/-- What holds of a visit whatever script it is part of. -/
structure Orderly (sh : Shell W) (v : Visit W) : Prop where
  consistent_before : v.before.state.Consistent
  consistent_after : (v.after sh).state.Consistent
  /-- Names are exported by `export` alone. -/
  exported : ∀ name ∈ (v.after sh).state.env, name ∉ v.before.state.env →
    ∃ u, ReflTransGen (Runs sh) v u ∧ u.Exports sh name
  /-- Assignments alone give each name the last of its values. -/
  assigned : ∀ words stdin values diagnostics s', v.activity = .simple words stdin →
    Run.expansion (sh.substitute v.depth) words v.before = (.ok ((values, []), diagnostics), s') →
    values.map Prod.fst = (Run.splitAssignments words).1.map Prod.fst
      ∧ ∀ before name value after, values = before ++ (name, value) :: after →
        name ∉ after.map Prod.fst → (v.after sh).state.lookup name = some value
  /-- Assignments before a command do not matter to the state, and only builtins change it. -/
  overlaid : ∀ words stdin values name args diagnostics s', v.activity = .simple words stdin →
    Run.expansion (sh.substitute v.depth) words v.before
      = (.ok ((values, name :: args), diagnostics), s') →
    s'.state = v.before.state
      ∧ (v.after sh).state = (Run.named sh [] name args stdin s').2.state
      ∧ (Builtin.named? name = none → (v.after sh).state = v.before.state)
  /-- A redirected simple command does what it would do without redirections, or nothing. -/
  redirected : ∀ words redirections first stdin,
    v.activity = .command (.simple words redirections) first stdin →
    (v.after sh).state = v.before.state
      ∨ ∃ u stdin', Runs sh v u ∧ u.activity = .simple words stdin'
        ∧ u.before.state = v.before.state ∧ (v.after sh).state = (u.after sh).state
  /-- A group does nothing to the state that it is run in. -/
  grouped : ∀ body redirections first stdin,
    v.activity = .command (.group body redirections) first stdin →
    (v.after sh).state = v.before.state
  /-- Neither does any expansion, with the substitutions that it runs. -/
  expanded : ∀ {α : Type} (step : ExpandContext W → ExpandM W α),
    (Run.expand (sh.substitute v.depth) step v.before).2.state = v.before.state

/-- A visit that starts in a consistent state is orderly. -/
theorem orderly_of_consistent (h : v.before.state.Consistent) : v.Orderly sh where
  consistent_before := h
  consistent_after := consistent_after h
  exported name hafter hbefore := exists_exports_of_mem_env hafter hbefore
  -- what is assigned holds afterwards, as the last of several assignments says
  assigned := by
    intro words stdin values diagnostics s' hv hrun
    refine ⟨Run.names_of_expansion hrun, ?_⟩
    rintro before name value after rfl hlast
    have hafter : (v.after sh).state
        = v.before.state.assignAll (before ++ (name, value) :: after) := by
      rw [Visit.after, hv]
      exact (Run.state_of_simple words stdin v.before).trans (by rw [hrun])
    rw [hafter]
    refine h.lookup_assignAll (fun a ha => ?_) hlast
    have hmem : a.1 ∈ (Run.splitAssignments words).1.map Prod.fst := by
      rw [← Run.names_of_expansion hrun]
      exact List.mem_map_of_mem (List.mem_append_left _ ha)
    obtain ⟨a', ha', heq⟩ := List.mem_map.1 hmem
    exact heq ▸ Run.isName_of_splitAssignments words a' ha'
  -- assignments in front of a command are gone when it has been run
  overlaid := by
    intro words stdin values name args diagnostics s' hv hrun
    have hexpanded := Run.state_of_expansion (sh.substitute v.depth) words v.before
    rw [hrun] at hexpanded
    have hafter : (v.after sh).state = (Run.named sh [] name args stdin s').2.state := by
      rw [Visit.after, hv]
      exact (Run.state_of_simple words stdin v.before).trans (by rw [hrun])
    refine ⟨hexpanded, hafter, fun hname => ?_⟩
    rw [hafter, Run.state_of_named, hname]
    exact hexpanded
  -- redirections themselves leave the state as it is
  redirected := by
    obtain ⟨depth, activity, s⟩ := v
    rintro words redirections first stdin rfl
    obtain hsame | ⟨stdin', _, _, _, s₁, s₂, hinput, hrouting, hstate, hbody⟩ :=
      Run.state_of_redirected (sh.substitute depth) redirections first stdin
        (Run.simple sh (sh.substitute depth) words) s
    · exact .inl hsame
    · exact .inr ⟨⟨depth, .simple words stdin', s₂⟩, stdin', .body hinput hrouting, rfl, hstate,
        hbody⟩
  grouped := by
    obtain ⟨depth, activity, s⟩ := v
    rintro body redirections first stdin rfl
    obtain hsame | ⟨stdin', _, _, _, s₁, s₂, -, -, hstate, hbody⟩ :=
      Run.state_of_redirected (sh.substitute depth) redirections first stdin
        (fun stdin => ShellM.isolated (Run.script sh (sh.substitute depth) stdin body)) s
    · exact hsame
    · exact hbody.trans hstate
  expanded step := Run.state_of_still (Run.still_expand (sh.substitute v.depth) step) v.before

/-- Activities leave the state consistent. -/
theorem consistent_of_ok (activity : Activity) (depth : Nat) {s s' : Session W}
    {outcome : CommandOutcome} (h : s.state.Consistent)
    (hrun : activity.run sh (sh.substitute depth) s = (.ok outcome, s')) :
    s'.state.Consistent := by
  have hafter : (after sh ⟨depth, activity, s⟩).state.Consistent := consistent_after h
  rwa [after, hrun] at hafter

/-- Every part finds a consistent state, for the parts before it have left one. -/
theorem consistent_of_runs (hruns : Runs sh v u) (h : v.before.state.Consistent) :
    u.before.state.Consistent := by
  have hrecorded : ∀ {stages : Pipeline} {first : Bool} {stdin : Bytes} {depth : Nat}
      {s s' : Session W} {outcome : CommandOutcome}, s.state.Consistent →
      Run.recorded (Run.pipeline sh (sh.substitute depth) first stdin stages) s = (.ok outcome, s') →
      s'.state.Consistent := by
    intro stages first stdin depth s s' outcome hs hrun
    obtain ⟨outcome', mid, hmid, hlast⟩ := exists_of_bind_apply_ok hrun
    have hconsistent :=
      consistent_of_ok (.pipeline stages first stdin) depth hs hmid
    cases hlast
    exact ⟨hconsistent.normal, hconsistent.apart, hconsistent.isName⟩
  cases hruns with
  | first => exact h
  | rest hrun => exact consistent_of_ok (.sequence _ _) _ h hrun
  | head => exact h
  | tail hrun => exact hrecorded h hrun
  | admitted => exact h
  | onward _ hrun => exact hrecorded h hrun
  | skipped => exact h
  | stage => exact h
  | piped hrun => exact consistent_of_ok (.command _ _ _) _ h hrun
  | body hinput hrouting =>
    have hfirst := (Run.still_input _ _ _).ok hinput
    have hsecond := (Run.still_routing _ _).ok hrouting
    exact (hsecond.trans hfirst).symm ▸ h

/-- So it is where a visit starts inside of another one. -/
theorem consistent_of_forks (hforks : Forks sh v u) (h : v.before.state.Consistent) :
    u.before.state.Consistent := by
  cases hforks with
  | group hinput hrouting =>
    have hfirst := (Run.still_input _ _ _).ok hinput
    have hsecond := (Run.still_routing _ _).ok hrouting
    exact (hsecond.trans hfirst).symm ▸ h
  | substitution hparse w => exact h

/-- By induction on the way to a part. -/
theorem consistent_of_reaches
    (hreach : ReflTransGen (fun v u => Runs sh v u ∨ Forks sh v u) v u)
    (h : v.before.state.Consistent) : u.before.state.Consistent := by
  induction hreach with
  | refl => exact h
  | tail _ hstep ih => exact hstep.elim (consistent_of_runs · ih) (consistent_of_forks · ih)

end Visit

/-! ## Whole scripts -/

/-- The visit that a script begins with. -/
def Shell.visit (sh : Shell W) (ss : Script) (s : Session W) : Visit W :=
  ⟨sh.config.maxSubstitutionDepth, .script ss [], s⟩

/-- What executing a text leaves is what its visit leaves. -/
theorem Shell.execute_snd (sh : Shell W) {text : String} {ss : Script}
    (h : Script.parse text = .ok ss) (s : Session W) :
    (sh.execute text s).2 = (sh.visit ss s).after sh := by
  rw [sh.execute_of_parse h]
  show _ = (sh.runScript ss s).2
  split
  · next hrun => rw [hrun]
  · next hrun => rw [hrun]

/-- The states that scripts lead to, one after the other, from a fresh one. Each script may find
another workspace. -/
inductive ShellState.Reached (sh : Shell W) (env : Environment) (cwd : String) : ShellState → Prop
  | fresh : Reached sh env cwd { env, cwd }
  | ran {s : ShellState} (h : Reached sh env cwd s) (w : W) (text : String) :
    Reached sh env cwd (sh.execute text ⟨w, s⟩).2.state

/-- By induction on the scripts that were run. -/
theorem ShellState.Reached.consistent {env : Environment} {cwd : String} {s : ShellState}
    (h : Reached sh env cwd s) (hcwd : IsNormal cwd) : s.Consistent := by
  induction h with
  | fresh => exact ShellState.consistent_fresh hcwd
  | ran _ w text ih =>
    cases hparse : Script.parse text with
    | error e =>
      unfold Shell.execute
      rw [hparse]
      exact ih
    | ok ss =>
      rw [sh.execute_snd hparse]
      exact Visit.consistent_after ih

/-- From a fresh state in a normal directory on, the state is consistent after every script, and
every part of the next script is orderly: those that run in the same shell, and those that groups
and substitutions run on copies of its state. -/
theorem Shell.orderly_throughout {env : Environment} {cwd : String} (hcwd : IsNormal cwd)
    {s : ShellState} (h : ShellState.Reached sh env cwd s) :
    s.Consistent ∧ ∀ (text : String) (ss : Script), Script.parse text = .ok ss → ∀ w : W,
      (sh.execute text ⟨w, s⟩).2 = (sh.visit ss ⟨w, s⟩).after sh
        ∧ ∀ v, ReflTransGen (fun v u => Visit.Runs sh v u ∨ Visit.Forks sh v u)
          (sh.visit ss ⟨w, s⟩) v → v.Orderly sh := by
  have hconsistent := h.consistent hcwd
  refine ⟨hconsistent, fun text ss hparse w => ⟨sh.execute_snd hparse _, fun v hreach => ?_⟩⟩
  exact Visit.orderly_of_consistent (Visit.consistent_of_reaches hreach hconsistent)

/-- After `A=1` in the directory `d`, a script that assigns twice runs orderly. -/
theorem Shell.orderly_throughout_assigned : IsNormal "d"
    ∧ ∃ s, ShellState.Reached ({} : Shell Tree) ∅ "d" s ∧ s.Consistent
      ∧ ∃ ss, Script.parse "A=2 A=3" = .ok ss
        ∧ (({} : Shell Tree).visit ss ⟨.empty, s⟩).Orderly {} := by
  have hnormal : IsNormal "d" := by decide +kernel
  have hreached : ShellState.Reached ({} : Shell Tree) ∅ "d" _ := .ran .fresh .empty "A=1"
  obtain ⟨hconsistent, horderly⟩ := Shell.orderly_throughout hnormal hreached
  obtain ⟨ss, hss⟩ := exists_of_isOk (x := Script.parse "A=2 A=3") (by decide +kernel)
  exact ⟨hnormal, _, hreached, hconsistent, ss, hss, (horderly _ ss hss .empty).2 _ .refl⟩

end Sandshell
