import Mathlib.Logic.Relation
import Sandshell.Proofs.Shell.Variables

/-!
# What runs inside a script

A script visits its sequences, pipelines and commands one after the other. Groups and substitutions
run on a copy of the state; all other parts run in the same shell, and what the whole does to the
state is what its simple commands do to it in turn.
-/

namespace Sandshell

open Relation (ReflTransGen)

/-- A part of a script, with the input that it reads. -/
inductive Activity where
  | script (ss : Script) (stdin : Bytes)
  | sequence (s : Sequence) (stdin : Bytes)
  | guarded (steps : List (Connector × Pipeline))
  | pipeline (stages : Pipeline) (first : Bool) (stdin : Bytes)
  | command (c : Command) (first : Bool) (stdin : Bytes)
  | simple (words : List Word) (stdin : Bytes)

/-- A part of a script about to run in a session, where `depth` substitutions may still be nested. -/
structure Visit (W : Type) where
  depth : Nat
  activity : Activity
  before : Session W

variable {W : Type} [Workspace W] {sh : Shell W}

/-- Runs a part of a script. -/
def Activity.run (sh : Shell W) (substitute : Run.Substitute W) : Activity → ShellM W CommandOutcome
  | .script ss stdin => Run.script sh substitute stdin ss
  | .sequence s stdin => Run.sequence sh substitute stdin s
  | .guarded steps => Run.guarded sh substitute steps
  | .pipeline stages first stdin => Run.pipeline sh substitute first stdin stages
  | .command c first stdin => Run.command sh substitute first stdin c
  | .simple words stdin => Run.simple sh substitute words stdin

namespace Visit

/-- The session that a visit leaves, also when it fails. -/
def after (sh : Shell W) (v : Visit W) : Session W :=
  (v.activity.run sh (sh.substitute v.depth) v.before).2

/-- The visits that a visit makes in the same shell. What comes second is only visited if what comes
first succeeded. -/
inductive Runs (sh : Shell W) : Visit W → Visit W → Prop
  | first {depth : Nat} {sequence : Sequence} {rest : Script} {stdin : Bytes} {s : Session W} :
    Runs sh ⟨depth, .script (sequence :: rest) stdin, s⟩ ⟨depth, .sequence sequence stdin, s⟩
  | rest {depth : Nat} {sequence : Sequence} {rest : Script} {stdin : Bytes} {s s' : Session W}
    {outcome : CommandOutcome}
    (h : Run.sequence sh (sh.substitute depth) stdin sequence s = (.ok outcome, s')) :
    Runs sh ⟨depth, .script (sequence :: rest) stdin, s⟩ ⟨depth, .script rest [], s'⟩
  | head {depth : Nat} {head : Pipeline} {tail : List (Connector × Pipeline)} {stdin : Bytes}
    {s : Session W} :
    Runs sh ⟨depth, .sequence (.chain head tail) stdin, s⟩ ⟨depth, .pipeline head true stdin, s⟩
  | tail {depth : Nat} {head : Pipeline} {tail : List (Connector × Pipeline)} {stdin : Bytes}
    {s s' : Session W} {outcome : CommandOutcome}
    (h : Run.recorded (Run.pipeline sh (sh.substitute depth) true stdin head) s
      = (.ok outcome, s')) :
    Runs sh ⟨depth, .sequence (.chain head tail) stdin, s⟩ ⟨depth, .guarded tail, s'⟩
  | admitted {depth : Nat} {connector : Connector} {stages : Pipeline}
    {rest : List (Connector × Pipeline)} {s : Session W}
    (h : connector.admits s.state.lastExitCode) :
    Runs sh ⟨depth, .guarded ((connector, stages) :: rest), s⟩ ⟨depth, .pipeline stages true [], s⟩
  | onward {depth : Nat} {connector : Connector} {stages : Pipeline}
    {rest : List (Connector × Pipeline)} {s s' : Session W} {outcome : CommandOutcome}
    (hadmits : connector.admits s.state.lastExitCode)
    (h : Run.recorded (Run.pipeline sh (sh.substitute depth) true [] stages) s
      = (.ok outcome, s')) :
    Runs sh ⟨depth, .guarded ((connector, stages) :: rest), s⟩ ⟨depth, .guarded rest, s'⟩
  | skipped {depth : Nat} {connector : Connector} {stages : Pipeline}
    {rest : List (Connector × Pipeline)} {s : Session W}
    (h : ¬ connector.admits s.state.lastExitCode) :
    Runs sh ⟨depth, .guarded ((connector, stages) :: rest), s⟩ ⟨depth, .guarded rest, s⟩
  | stage {depth : Nat} {stage : Command} {rest : Pipeline} {first : Bool} {stdin : Bytes}
    {s : Session W} :
    Runs sh ⟨depth, .pipeline (stage :: rest) first stdin, s⟩ ⟨depth, .command stage first stdin, s⟩
  | piped {depth : Nat} {stage : Command} {rest : Pipeline} {first : Bool} {stdin : Bytes}
    {s s' : Session W} {outcome : CommandOutcome}
    (h : Run.command sh (sh.substitute depth) first stdin stage s = (.ok outcome, s')) :
    Runs sh ⟨depth, .pipeline (stage :: rest) first stdin, s⟩
      ⟨depth, .pipeline rest false outcome.stdout, s'⟩
  | body {depth : Nat} {words : List Word} {redirections : List Redirection} {first : Bool}
    {stdin stdin' diagnostics diagnostics' : Bytes} {r : Routing} {s s₁ s₂ : Session W}
    (hinput : Run.input (sh.substitute depth) redirections first stdin s
      = (.ok (stdin', diagnostics), s₁))
    (hrouting : Run.routing (sh.substitute depth) {} redirections s₁
      = (.ok (r, diagnostics'), s₂)) :
    Runs sh ⟨depth, .command (.simple words redirections) first stdin, s⟩
      ⟨depth, .simple words stdin', s₂⟩

/-- The visits that a visit makes on a copy of the state. A substitution may run any script that can
be read, and may find any workspace. -/
inductive Forks (sh : Shell W) : Visit W → Visit W → Prop
  | group {depth : Nat} {body : Script} {redirections : List Redirection} {first : Bool}
    {stdin stdin' diagnostics diagnostics' : Bytes} {r : Routing} {s s₁ s₂ : Session W}
    (hinput : Run.input (sh.substitute depth) redirections first stdin s
      = (.ok (stdin', diagnostics), s₁))
    (hrouting : Run.routing (sh.substitute depth) {} redirections s₁
      = (.ok (r, diagnostics'), s₂)) :
    Forks sh ⟨depth, .command (.group body redirections) first stdin, s⟩
      ⟨depth, .script body stdin', s₂⟩
  | substitution {depth : Nat} {activity : Activity} {s : Session W} {text : String}
    {ss : Script} (hparse : Script.parse text = .ok ss) (w : W) :
    Forks sh ⟨depth + 1, activity, s⟩ ⟨depth, .script ss [], ⟨w, s.state⟩⟩

end Visit

/-! ## Redirections -/

namespace Run

open Law (obeys_pure)

variable {substitute : Substitute W}

/-- Resolving a target leaves the state as it is. -/
theorem still_target (w : Word) : still.Obeys (target substitute w) := by
  apply (still_expand substitute fun ctx => Expand.word ctx w).bind
  intro (fields, diagnostics)
  dsimp only
  split
  · split
    · exact still_throw _
    · refine still_state.bind fun state => ?_
      split
      · exact obeys_pure _
      · exact still_throw _
  · exact still_throw _

/-- So does reading the input. -/
theorem still_input (redirections : List Redirection) (first : Bool) (stdin : Bytes) :
    still.Obeys (input substitute redirections first stdin) := by
  unfold input
  split
  · split
    · exact (still_target _).bind fun _ => (still_onWorkspaceOr _ _).bind fun _ => obeys_pure _
    · exact obeys_pure _
  · exact obeys_pure _

/-- And resolving the redirections of output. -/
theorem still_routing (r : Routing) (redirections : List Redirection) :
    still.Obeys (routing substitute r redirections) := by
  fun_induction routing substitute r redirections with
  | case1 => exact obeys_pure _
  | case2 r w rest ih => exact ih
  | case3 r rest ih => exact ih
  | case4 r stream mode w rest ih =>
    exact (still_target w).bind fun opened => (ih opened.1).bind fun _ => obeys_pure _

/-- What a redirected command does to the state is what its body does, if it gets that far. -/
theorem state_of_redirected (substitute : Substitute W) (redirections : List Redirection)
    (first : Bool) (stdin : Bytes) (body : Bytes → ShellM W CommandOutcome) (s : Session W) :
    (redirected substitute redirections first stdin body s).2.state = s.state
      ∨ ∃ stdin' diagnostics r diagnostics' s₁ s₂,
        input substitute redirections first stdin s = (.ok (stdin', diagnostics), s₁)
          ∧ routing substitute {} redirections s₁ = (.ok (r, diagnostics'), s₂)
          ∧ s₂.state = s.state
          ∧ (redirected substitute redirections first stdin body s).2.state
            = (body stdin' s₂).2.state := by
  -- before the body nothing touches the state
  unfold redirected
  rcases hinput : input substitute redirections first stdin s with
    ⟨e | ⟨stdin', diagnostics⟩, s₁⟩
  · rw [bind_apply_error hinput]
    exact .inl ((still_input redirections first stdin).error hinput)
  rw [bind_apply_ok hinput]
  have hfirst : s₁.state = s.state := (still_input redirections first stdin).ok hinput
  dsimp only
  rcases hrouting : routing substitute {} redirections s₁ with ⟨e | ⟨r, diagnostics'⟩, s₂⟩
  · rw [bind_apply_error hrouting]
    have hsecond : s₂.state = s₁.state := (still_routing {} redirections).error hrouting
    exact .inl (hsecond.trans hfirst)
  rw [bind_apply_ok hrouting]
  have hsecond : s₂.state = s₁.state := (still_routing {} redirections).ok hrouting
  refine .inr ⟨stdin', diagnostics, r, diagnostics', s₁, s₂, rfl, hrouting, hsecond.trans hfirst, ?_⟩
  rw [bind_apply_snd]
  split
  · next outcome s₃ hbody =>
    rw [hbody, bind_pure_apply_snd]
    exact state_of_still (still_onWorkspaceOr _ _) s₃
  · next hbody => rw [hbody]

end Run

/-! ## What simple commands do in turn -/

/-- A relation between states that steps in turn stay in, whatever exit codes are recorded. -/
structure ShellState.Composes (R : ShellState → ShellState → Prop) : Prop where
  refl : ∀ s, R s s
  trans : ∀ {s s' s''}, R s s' → R s' s'' → R s s''
  exitCode : ∀ s code, R s { s with lastExitCode := code }

namespace Visit

variable {R : ShellState → ShellState → Prop} {depth : Nat}

/-- All simple commands that a visit makes in the same shell move the state along a relation. -/
def Moves (sh : Shell W) (R : ShellState → ShellState → Prop) (v : Visit W) : Prop :=
  ∀ u, ReflTransGen (Runs sh) v u → ∀ words stdin, u.activity = .simple words stdin →
    R u.before.state (u.after sh).state

/-- What holds of all visits inside holds of those inside of them. -/
theorem Moves.of_runs {v u : Visit W} (h : v.Moves sh R) (hruns : Runs sh v u) : u.Moves sh R :=
  fun x hreach => h x (hreach.head hruns)

omit [Workspace W] in
/-- Recording the exit code keeps the relation. -/
theorem related_recorded (hR : ShellState.Composes R) {pipeline : ShellM W CommandOutcome}
    {s : Session W} (h : R s.state (pipeline s).2.state) :
    R s.state (Run.recorded pipeline s).2.state := by
  rw [Run.recorded, bind_apply_snd]
  split
  · next outcome s' hrun =>
    rw [hrun] at h
    exact hR.trans h (hR.exitCode s'.state outcome.exitCode)
  · next hrun =>
    rw [hrun] at h
    exact h

section

variable (hR : ShellState.Composes R)
include hR

mutual

/-- A command relates the states before and after it if the visits inside do. -/
theorem related_command : ∀ (c : Command) (first : Bool) (stdin : Bytes) (s : Session W),
    Moves sh R ⟨depth, .command c first stdin, s⟩ →
      R s.state (Run.command sh (sh.substitute depth) first stdin c s).2.state
  | .simple words redirections, first, stdin, s, h => by
    rw [Run.command]
    obtain hsame | ⟨stdin', _, _, _, s₁, s₂, hinput, hrouting, hstate, hbody⟩ :=
      Run.state_of_redirected (sh.substitute depth) redirections first stdin
        (Run.simple sh (sh.substitute depth) words) s
    · rw [hsame]
      exact hR.refl _
    · rw [hbody, ← hstate]
      exact h ⟨depth, .simple words stdin', s₂⟩ (.single (.body hinput hrouting)) _ _ rfl
  | .group body redirections, first, stdin, s, h => by
    rw [Run.command]
    -- the state of the copy is dropped, and what is redirected leaves the state alone
    obtain hsame | ⟨stdin', _, _, _, s₁, s₂, -, -, hstate, hbody⟩ :=
      Run.state_of_redirected (sh.substitute depth) redirections first stdin
        (fun stdin => ShellM.isolated (Run.script sh (sh.substitute depth) stdin body)) s
    · rw [hsame]
      exact hR.refl _
    · rw [hbody, ← hstate]
      exact hR.refl _

/-- A pipeline does so stage by stage. -/
theorem related_pipeline : ∀ (stages : Pipeline) (first : Bool) (stdin : Bytes) (s : Session W),
    Moves sh R ⟨depth, .pipeline stages first stdin, s⟩ →
      R s.state (Run.pipeline sh (sh.substitute depth) first stdin stages s).2.state
  | [], first, stdin, s, _ => by
    rw [Run.pipeline]
    exact hR.refl _
  | stage :: rest, first, stdin, s, h => by
    have hstage := related_command stage first stdin s (h.of_runs .stage)
    rw [Run.pipeline]
    rcases hrun : Run.command sh (sh.substitute depth) first stdin stage s with ⟨e | outcome, s'⟩
    · have hattempt : ShellM.attempt (Run.command sh (sh.substitute depth) first stdin stage) s
          = (.ok (.error e), s') := by
        rw [ShellM.attempt, hrun]
      rw [hrun] at hstage
      rw [bind_apply_ok hattempt]
      dsimp only
      split
      · exact hstage
      · exact hstage
    · have hattempt : ShellM.attempt (Run.command sh (sh.substitute depth) first stdin stage) s
          = (.ok (.ok outcome), s') := by
        rw [ShellM.attempt, hrun]
      rw [hrun] at hstage
      rw [bind_apply_ok hattempt]
      dsimp only
      rw [bind_pure_apply_snd]
      exact hR.trans hstage
        (related_pipeline rest false outcome.stdout s' (h.of_runs (.piped hrun)))

/-- Connected pipelines do so whether they run or not. -/
theorem related_guarded : ∀ (steps : List (Connector × Pipeline)) (s : Session W),
    Moves sh R ⟨depth, .guarded steps, s⟩ →
      R s.state (Run.guarded sh (sh.substitute depth) steps s).2.state
  | [], s, _ => by
    rw [Run.guarded]
    exact hR.refl _
  | (connector, stages) :: rest, s, h => by
    rw [Run.guarded, bind_apply_ok (show ShellM.state s = (.ok s.state, s) from rfl)]
    split
    · next hadmits =>
      have hfirst := related_recorded hR
        (related_pipeline stages true [] s (h.of_runs (.admitted hadmits)))
      rw [bind_apply_snd]
      split
      · next outcome s' hrun =>
        rw [hrun] at hfirst
        rw [bind_pure_apply_snd]
        exact hR.trans hfirst (related_guarded rest s' (h.of_runs (.onward hadmits hrun)))
      · next hrun =>
        rw [hrun] at hfirst
        exact hfirst
    · next hadmits => exact related_guarded rest s (h.of_runs (.skipped hadmits))

/-- A sequence does so with its first pipeline and what is connected. -/
theorem related_sequence : ∀ (sequence : Sequence) (stdin : Bytes) (s : Session W),
    Moves sh R ⟨depth, .sequence sequence stdin, s⟩ →
      R s.state (Run.sequence sh (sh.substitute depth) stdin sequence s).2.state
  | .chain head tail, stdin, s, h => by
    have hfirst := related_recorded hR (related_pipeline head true stdin s (h.of_runs .head))
    rw [Run.sequence, bind_apply_snd]
    split
    · next outcome s' hrun =>
      rw [hrun] at hfirst
      rw [bind_pure_apply_snd]
      exact hR.trans hfirst (related_guarded tail s' (h.of_runs (.tail hrun)))
    · next hrun =>
      rw [hrun] at hfirst
      exact hfirst

end

/-- And so does a script. -/
theorem related_script (ss : Script) (stdin : Bytes) (s : Session W)
    (h : Moves sh R ⟨depth, .script ss stdin, s⟩) :
    R s.state (Run.script sh (sh.substitute depth) stdin ss s).2.state := by
  induction ss generalizing stdin s with
  | nil =>
    rw [Run.script]
    exact hR.refl _
  | cons sequence rest ih =>
    have hfirst := related_sequence hR sequence stdin s (h.of_runs .first)
    rw [Run.script, bind_apply_snd]
    split
    · next outcome s' hrun =>
      rw [hrun] at hfirst
      rw [bind_pure_apply_snd]
      exact hR.trans hfirst (ih [] s' (h.of_runs (.rest hrun)))
    · next hrun =>
      rw [hrun] at hfirst
      exact hfirst

/-- What the simple commands of a visit do to the state, the visit does. -/
theorem related_after (v : Visit W) (h : v.Moves sh R) : R v.before.state (v.after sh).state := by
  obtain ⟨depth, activity, s⟩ := v
  cases activity with
  | script ss stdin => exact related_script hR ss stdin s h
  | sequence sequence stdin => exact related_sequence hR sequence stdin s h
  | guarded steps => exact related_guarded hR steps s h
  | pipeline stages first stdin => exact related_pipeline hR stages first stdin s h
  | command c first stdin => exact related_command hR c first stdin s h
  | simple words stdin => exact h _ .refl words stdin rfl

end

end Visit

end Sandshell
