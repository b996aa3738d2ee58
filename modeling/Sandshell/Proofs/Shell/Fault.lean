import Sandshell.Proofs.Shell.Ending

/-!
# Faults

Two kinds of failure end a script: its text is none, or the engine behind the delegate has a fault.
Everything else that fails ends a stage. Besides, a script has no end where a call has none.
-/

namespace Sandshell

open Relation (ReflTransGen)

namespace Shell

variable {W : Type} [Workspace W] (sh : Shell W)

/-- The delegate answers a call with a fault of the engine. -/
def Faults (w : W) (e : EngineError) (w' : W) : Prop :=
  ∃ d request, sh.delegate? = some d ∧ d.run request w = (.error (.engine e), w')

/-- Calls move the workspace. A fatal failure is a fault of the engine, which the delegate has just
answered with, or comes of a call that has no end. -/
def accountable : Law W ShellError where
  moves := ReflTransGen sh.Touches
  fails w error w' := error.isFatal = false ∧ ReflTransGen sh.Touches w w'
    ∨ (∃ e v, error = .engine e ∧ ReflTransGen sh.Touches w v ∧ sh.Faults v e w')
    ∨ error = .workspace .endless ∧ ∃ v, ReflTransGen sh.Touches w v ∧ sh.Hangs v
  refl _ := .refl
  trans := .trans
  fails_of_moves h hfails := by
    obtain ⟨he, h'⟩ | ⟨e, v, he, h', hfault⟩ | ⟨he, v, h', hhangs⟩ := hfails
    · exact .inl ⟨he, h.trans h'⟩
    · exact .inr (.inl ⟨e, v, he, h.trans h', hfault⟩)
    · exact .inr (.inr ⟨he, v, h.trans h', hhangs⟩)

/-- A failure of the delegate is a fault of the engine, a call without an end, or no fatal failure. -/
theorem fails_of_delegate {d : Delegate W} (hd : sh.delegate? = some d) {request : CommandRequest}
    {w w' : W} {e : DelegateError} (hrun : d.run request w = (.error e, w')) :
    sh.accountable.fails w (.ofDelegate e) w' := by
  cases hfatal : (ShellError.ofDelegate e).isFatal with
  | false =>
    have htouch : sh.Touches w (d.run request w).2 := .delegates hd request w (by
      rw [hrun]
      intro e' he'
      rwa [← Except.error.inj he'])
    rw [hrun] at htouch
    exact .inl ⟨hfatal, .single htouch⟩
  | true =>
    rcases ShellError.eq_of_isFatal_ofDelegate hfatal with ⟨fault, rfl⟩ | rfl
    · exact .inr (.inl ⟨fault, w, rfl, .refl, d, request, hd, hrun⟩)
    · exact .inr (.inr ⟨rfl, w, .refl, .inr ⟨d, request, hd, congrArg Prod.fst hrun⟩⟩)

/-- Every step of a shell accounts for its failures. -/
theorem accountable_permits : sh.accountable.Permits sh where
  peeks h := .single (.peeks h)
  writes path data w := .single (.writes path data w)
  delegates {d} hd {request w output w'} hrun := by
    have htouch : sh.Touches w (d.run request w).2 := .delegates hd request w (by
      rw [hrun]
      intro e he
      cases he)
    rw [hrun] at htouch
    exact .single htouch
  refuses {d} hd {request w e w'} hrun := sh.fails_of_delegate hd hrun
  survives {e} he {w w'} := by
    constructor
    · intro hfails
      obtain ⟨-, h⟩ | ⟨fault, v, rfl, -⟩ | ⟨rfl, -⟩ := hfails
      · exact h
      · cases he
      · cases he
    · exact fun h => .inl ⟨he, h⟩
  hangs hmoves hforever _ := .inr (.inr ⟨rfl, _, hmoves, .inl hforever⟩)

end Shell

/-! ## Stages -/

namespace Run

open Law (obeys_pure)

/-- Every failure is fatal, whatever becomes of the state. -/
def fatal {σ : Type} : Law σ ShellError where
  moves _ _ := True
  fails _ e _ := e.isFatal = true
  refl _ := trivial
  trans _ _ := trivial
  fails_of_moves _ h := h

section

variable {W α : Type}

/-- What never fails has no fault. -/
theorem fatal_of_ok {step : ShellM W α} (h : ∀ s, ∃ a s', step s = (.ok a, s')) :
    fatal.Obeys step := by
  intro s
  obtain ⟨a, s', hok⟩ := h s
  rw [hok]
  trivial

theorem fatal_idle : fatal.Obeys (idle : ShellM W CommandOutcome) :=
  fatal_of_ok fun s => ⟨_, s, rfl⟩

/-- Recording the exit code stops only where the pipeline does. -/
theorem fatal_recorded {pipeline : ShellM W CommandOutcome} (h : fatal.Obeys pipeline) :
    fatal.Obeys (recorded pipeline) := by
  refine h.bind fun outcome => ?_
  exact (fatal_of_ok fun s => ⟨_, _, rfl⟩).bind fun _ => obeys_pure _

end

variable {W : Type} [Workspace W] {sh : Shell W} {substitute : Substitute W}

/-- A pipeline takes the failures of its stages for an exit code, but for the fatal ones. -/
theorem fatal_pipeline (first : Bool) (stdin : Bytes) (stages : Pipeline) :
    fatal.Obeys (pipeline sh substitute first stdin stages) := by
  induction stages generalizing first stdin with
  | nil => exact obeys_pure _
  | cons stage rest ih =>
    rw [pipeline]
    apply (fatal_of_ok fun s => ⟨_, _, rfl⟩).bind
    intro result
    cases result with
    | error e =>
      dsimp only
      split
      · next he => exact (Law.obeys_throw fun _ => he).bind fun _ => obeys_pure _
      · exact obeys_pure _
    | ok outcome => exact (ih false outcome.stdout).bind fun _ => obeys_pure _

/-- Connected pipelines stop only at faults. -/
theorem fatal_guarded (steps : List (Connector × Pipeline)) :
    fatal.Obeys (guarded sh substitute steps) := by
  induction steps with
  | nil =>
    rw [guarded]
    exact fatal_idle
  | cons step rest ih =>
    obtain ⟨connector, stages⟩ := step
    rw [guarded]
    apply (fatal_of_ok fun s => ⟨_, s, rfl⟩).bind
    intro state
    split
    · exact (fatal_recorded (fatal_pipeline true [] stages)).bind fun _ => ih.bind fun _ =>
        obeys_pure _
    · exact ih

theorem fatal_sequence (stdin : Bytes) (s : Sequence) :
    fatal.Obeys (sequence sh substitute stdin s) := by
  obtain ⟨head, tail⟩ := s
  rw [sequence]
  exact (fatal_recorded (fatal_pipeline true stdin head)).bind fun _ =>
    (fatal_guarded tail).bind fun _ => obeys_pure _

/-- So do scripts. -/
theorem fatal_script (stdin : Bytes) (ss : Script) :
    fatal.Obeys (script sh substitute stdin ss) := by
  induction ss generalizing stdin with
  | nil =>
    rw [script]
    exact fatal_idle
  | cons first rest ih =>
    rw [script]
    exact (fatal_sequence stdin first).bind fun _ => (ih []).bind fun _ => obeys_pure _

end Run

/-! ## Scripts -/

namespace Shell

variable {W : Type} [Workspace W] (sh : Shell W)

/-- A script that has been read fails only with a fault of the engine, the last thing that happens
to the workspace, or because of a call without an end. -/
theorem faults_of_runScript {ss : Script} {s s' : Session W} {error : ShellError}
    (h : sh.runScript ss s = (.error error, s')) :
    (∃ e v, error = .engine e ∧ ReflTransGen sh.Touches s.workspace v ∧ sh.Faults v e s'.workspace)
      ∨ error = .workspace .endless
        ∧ ∃ v, ReflTransGen sh.Touches s.workspace v ∧ sh.Hangs v := by
  have hfails := (sh.accountable_permits.runScript_obeys ss).error h
  obtain ⟨he, -⟩ | hfault := hfails
  -- failures that are not fatal do not get out of a pipeline
  · have hfatal : error.isFatal = true := (Run.fatal_script [] ss).error h
    rw [he] at hfatal
    cases hfatal
  · exact hfault

/-- A text that does not parse is refused, and nothing happens. -/
theorem execute_of_parse_error {text : String} {e : ParseError} (h : Script.parse text = .error e)
    (s : Session W) : sh.execute text s = (.error (.parse e), s) := by
  rw [execute, h]
  rfl

/-- A text that parses fails only where its run does. -/
theorem execute_eq_error_of_parse {text : String} {ss : Script} (h : Script.parse text = .ok ss)
    {s s' : Session W} {error : ShellError} (herror : sh.execute text s = (.error error, s')) :
    sh.runScript ss s = (.error error, s') := by
  rw [sh.execute_of_parse h] at herror
  split at herror
  · cases herror
  · next hrun =>
    cases herror
    exact hrun

/-- A script without an end comes to a call without one. -/
theorem hangs_of_execute {text : String} {s : Session W}
    (h : (sh.execute text s).1 = .error (.workspace .endless)) :
    ∃ v, ReflTransGen sh.Touches s.workspace v ∧ sh.Hangs v := by
  cases hparse : Script.parse text with
  | error e =>
    rw [sh.execute_of_parse_error hparse] at h
    cases h
  | ok ss =>
    obtain ⟨e, v, he, -⟩ | ⟨-, hhangs⟩ :=
      sh.faults_of_runScript (sh.execute_eq_error_of_parse hparse (Prod.ext h rfl))
    · cases he
    · exact hhangs

/-- Without a delegate a script that can be read has a result or no end. -/
theorem isOk_execute (hnone : sh.delegate? = none) {text : String} (hparse : (Script.parse text).isOk)
    {s : Session W} (hends : (sh.execute text s).1 ≠ .error (.workspace .endless)) :
    (sh.execute text s).1.isOk := by
  obtain ⟨ss, hss⟩ := exists_of_isOk hparse
  rcases hrun : sh.execute text s with ⟨error | outcome, s'⟩
  · rw [hrun] at hends
    obtain ⟨e, v, -, -, d, request, hd, -⟩ | ⟨rfl, -⟩ :=
      sh.faults_of_runScript (sh.execute_eq_error_of_parse hss hrun)
    · rw [hnone] at hd
      cases hd
    · exact absurd rfl hends
  · rfl

/-- How a script fails: its text is none, the engine has a fault, or there is no end to it. -/
theorem failures_of_execute (text : String) (s : Session W) :
    (∀ error, (sh.execute text s).1 = .error error →
        (∃ e, error = .parse e) ∨ (∃ e, error = .engine e) ∨ error = .workspace .endless)
      ∧ (∀ e, (sh.execute text s).1 = .error (.parse e) ↔ Script.parse text = .error e)
      ∧ (∀ e, (sh.execute text s).1 = .error (.parse e) → (sh.execute text s).2 = s)
      ∧ (∀ e, (sh.execute text s).1 = .error (.engine e) →
        ∃ v d request, ReflTransGen sh.Touches s.workspace v ∧ sh.delegate? = some d
          ∧ d.run request v = (.error (.engine e), (sh.execute text s).2.workspace)) := by
  cases hparse : Script.parse text with
  | error e =>
    rw [sh.execute_of_parse_error hparse]
    refine ⟨fun error h => ?_, fun e' => ?_, fun _ _ => rfl, nofun⟩
    · cases h
      exact .inl ⟨e, rfl⟩
    -- a text that parses is not refused, and one that does not is refused as it is parsed
    · constructor
      · intro h
        cases h
        rfl
      · intro h
        cases h
        rfl
  | ok ss =>
    rcases hrun : sh.execute text s with ⟨error | outcome, s'⟩
    -- a run fails with a fault of an engine or because a search goes on for ever
    · obtain ⟨e, v, rfl, hreach, d, request, hd, hfault⟩ | ⟨rfl, -⟩ :=
        sh.faults_of_runScript (sh.execute_eq_error_of_parse hparse hrun)
      · refine ⟨fun error h => ?_, fun _ => ⟨nofun, nofun⟩, nofun, fun e' h => ?_⟩
        · cases h
          exact .inr (.inl ⟨e, rfl⟩)
        · cases h
          exact ⟨v, d, request, hreach, hd, hfault⟩
      · refine ⟨fun error h => ?_, fun _ => ⟨nofun, nofun⟩, nofun, nofun⟩
        cases h
        exact .inr (.inr rfl)
    · exact ⟨nofun, fun _ => ⟨nofun, nofun⟩, nofun, nofun⟩

/-- Wherever calls lead, texts that parse have a result, exactly if no search is without an end. -/
theorem endsFrom_iff_of_no_delegate (hnone : sh.delegate? = none) (w : W) : sh.EndsFrom w
    ↔ ∀ v, ReflTransGen sh.Touches w v → ∀ text state, (Script.parse text).isOk →
      (sh.execute text ⟨v, state⟩).1.isOk := by
  constructor
  · intro hends v hreach text state hparse
    refine sh.isOk_execute hnone hparse fun hendless => ?_
    obtain ⟨u, hu, hhangs⟩ := sh.hangs_of_execute hendless
    exact hends u (hreach.trans hu) hhangs
  · rintro hok v hreach (hforever | ⟨d, request, hd, -⟩)
    · have hdelegated : ∀ name, sh.delegated name = false := by
        intro name
        rw [delegated, hnone]
        rfl
      obtain ⟨text, state, hparse, hendless⟩ :=
        sh.exists_execute_eq_endless (hdelegated "grep") (hdelegated "rg") hforever
      have hresult := hok v hreach text state hparse
      rw [hendless] at hresult
      cases hresult
    · rw [hnone] at hd
      cases hd

/-- A script fails only if its text is none, if the engine has a fault, or if there is no end to it,
so that nothing comes of it. The first is so exactly where the text does not parse, and then nothing
has happened. The second is so only where the delegate has just answered a call with that fault, the
first call that it answered so. The third is so only where a search does not terminate or a call of
the delegate has no end. Without a delegate every text that parses has a result or no end; and
wherever calls lead all of them have a result, exactly if all searches terminate there. -/
theorem execute_fails_only_with_faults (text : String) (s : Session W) :
    (∀ error, (sh.execute text s).1 = .error error →
        (∃ e, error = .parse e) ∨ (∃ e, error = .engine e) ∨ error = .workspace .endless)
      ∧ (∀ e, (sh.execute text s).1 = .error (.parse e) ↔ Script.parse text = .error e)
      ∧ (∀ e, (sh.execute text s).1 = .error (.parse e) → (sh.execute text s).2 = s)
      ∧ (∀ e, (sh.execute text s).1 = .error (.engine e) →
        ∃ v d request, ReflTransGen sh.Touches s.workspace v ∧ sh.delegate? = some d
          ∧ d.run request v = (.error (.engine e), (sh.execute text s).2.workspace))
      ∧ ((sh.execute text s).1 = .error (.workspace .endless) →
        ∃ v, ReflTransGen sh.Touches s.workspace v ∧ sh.Hangs v)
      ∧ (sh.delegate? = none → (Script.parse text).isOk →
        ((sh.execute text s).1.isOk ↔ (sh.execute text s).1 ≠ .error (.workspace .endless)))
      ∧ (sh.delegate? = none → (sh.EndsFrom s.workspace
        ↔ ∀ v, ReflTransGen sh.Touches s.workspace v → ∀ text state, (Script.parse text).isOk →
          (sh.execute text ⟨v, state⟩).1.isOk)) := by
  obtain ⟨hfails, hparses, hleaves, hengine⟩ := sh.failures_of_execute text s
  refine ⟨hfails, hparses, hleaves, hengine, sh.hangs_of_execute, fun hnone hparse => ?_,
    fun hnone => sh.endsFrom_iff_of_no_delegate hnone s.workspace⟩
  constructor
  · intro hok hendless
    rw [hendless] at hok
    cases hok
  · exact sh.isOk_execute hnone hparse

/-- A shell on trees whose delegate provides every name, with an engine that runs nothing. -/
def withoutEngine : Shell Tree where
  delegate? := some ⟨fun _ => true, fun _ w => (.error (.engine (.runtime "down")), w)⟩

/-- An unknown command ends its stage, a fault of the engine the script. -/
theorem execute_fails_only_with_faults_unknown :
    (({} : Shell Tree).execute "unknown" ⟨Tree.empty, {}⟩).1.isOk
      ∧ (withoutEngine.execute "unknown" ⟨Tree.empty, {}⟩).1 = .error (.engine (.runtime "down"))
      ∧ ∃ v d request, ReflTransGen withoutEngine.Touches Tree.empty v
        ∧ withoutEngine.delegate? = some d
        ∧ d.run request v = (.error (.engine (.runtime "down")),
          (withoutEngine.execute "unknown" ⟨Tree.empty, {}⟩).2.workspace) := by
  have hfault : (withoutEngine.execute "unknown" ⟨Tree.empty, {}⟩).1
      = .error (.engine (.runtime "down")) := by decide +kernel
  have hends : ({} : Shell Tree).EndsFrom Tree.empty := by
    refine Tree.wellFormed_empty.hasNormalKeys.endsFrom fun d hd => ?_
    cases hd
  refine ⟨?_, hfault, ?_⟩
  · obtain ⟨-, -, -, -, -, -, hall⟩ :=
      execute_fails_only_with_faults ({} : Shell Tree) "unknown" ⟨Tree.empty, {}⟩
    exact (hall rfl).1 hends Tree.empty .refl "unknown" {} (by decide +kernel)
  · exact (execute_fails_only_with_faults withoutEngine "unknown" ⟨Tree.empty, {}⟩).2.2.2.1 _ hfault

/-- A search of a tree with a file under a path that begins with a slash has no end, so that there is
no result although the script can be read. -/
theorem not_forall_isOk_execute : ¬ ∀ (sh : Shell Tree) (text : String) (s : Session Tree),
    sh.delegate? = none → (Script.parse text).isOk → (sh.execute text s).1.isOk := by
  intro hall
  obtain ⟨text, state, hparse, hendless⟩ :=
    exists_execute_eq_endless ({} : Shell Tree) rfl rfl Tree.searchesForever_slashed
  have hok := hall {} text ⟨Tree.slashed, state⟩ rfl hparse
  rw [hendless] at hok
  cases hok

end Shell

end Sandshell
