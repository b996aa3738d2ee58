import Sandshell.Proofs.Script.Reading
import Sandshell.Proofs.Script.Scan
import Sandshell.Shell.Run
import Sandshell.Workspace.Tree

/-!
# One script after another

Two scripts with a line break between them run as the first one and then the second one, from the
session that the first one left. The first one's exit code is what the second one finds recorded.
-/

namespace Sandshell

namespace CommandOutcome

theorem followedBy_assoc (a b c : CommandOutcome) :
    (a.followedBy b).followedBy c = a.followedBy (b.followedBy c) := by
  simp [followedBy]

end CommandOutcome

namespace Run

variable {W : Type} {s s' : Session W} {outcome : CommandOutcome}

/-- Running nothing has the recorded exit code. -/
theorem lastExitCode_of_idle (h : idle s = (.ok outcome, s')) :
    s'.state.lastExitCode = outcome.exitCode := by
  cases h
  rfl

variable [Workspace W] {sh : Shell W} {substitute : Substitute W}

/-- What a script leaves recorded is its exit code. By induction on its sequences: after the last
one nothing is left to run. -/
theorem lastExitCode_of_script {stdin : Bytes} {ss : Script}
    (h : script sh substitute stdin ss s = (.ok outcome, s')) :
    s'.state.lastExitCode = outcome.exitCode := by
  induction ss generalizing s stdin outcome with
  | nil =>
    rw [script] at h
    exact lastExitCode_of_idle h
  | cons first rest ih =>
    rw [script] at h
    obtain ⟨outcome', mid, -, hrest⟩ := exists_of_bind_apply_ok h
    obtain ⟨last, mid', hlast, hjoined⟩ := exists_of_bind_apply_ok hrest
    cases hjoined
    show _ = last.exitCode
    exact ih hlast

/-- The sequences of two scripts run one script after the other. -/
theorem script_append (first second : Script) :
    script sh substitute [] (first ++ second) = (do
      let outcome ← script sh substitute [] first
      return outcome.followedBy (← script sh substitute [] second)) := by
  induction first with
  | nil =>
    -- the outcome of nothing is lost: no output, and an exit code that the second script replaces
    refine funext fun s => ?_
    rw [List.nil_append, script, bind_apply_ok (show idle s = (.ok _, s) from rfl)]
    cases h : script sh substitute [] second s with
    | mk result s' =>
      cases result with
      | error e => rw [bind_apply_error h]
      | ok outcome =>
        rw [bind_apply_ok h]
        rfl
  | cons sequence rest ih =>
    simp only [List.cons_append, script, ih, bind_assoc, pure_bind, CommandOutcome.followedBy_assoc]

end Run

namespace Script

/-- A line break between two scripts joins their sequences, if it is a token of its own. -/
theorem parse_append_newline {first second : String} {a b : Script} (ha : parse first = .ok a)
    (hb : parse second = .ok b)
    (hseam : Token.scan (first ++ "\n")
      = (Token.scan first).map (· ++ [Token.operator .newline])) :
    parse (first ++ "\n" ++ second) = .ok (a ++ b) := by
  rw [parse] at ha hb
  cases hfirst : Token.scan first with
  | error e =>
    rw [hfirst] at ha
    cases ha
  | ok ts =>
    cases hsecond : Token.scan second with
    | error e =>
      rw [hsecond] at hb
      cases hb
    | ok ts' =>
      rw [hfirst] at ha hseam
      rw [hsecond] at hb
      rw [parse, Token.scan_append_newline hfirst hseam, hsecond]
      exact ofTokens_eq_ok_iff.2 ((ofTokens_eq_ok_iff.1 ha).append (ofTokens_eq_ok_iff.1 hb))

end Script

namespace Shell

variable {W : Type} [Workspace W] (sh : Shell W)

/-- A text that parses is run, and its output captured. -/
theorem execute_of_parse {text : String} {ss : Script} (h : Script.parse text = .ok ss)
    (s : Session W) :
    sh.execute text s =
      match sh.runScript ss s with
      | (.ok outcome, s') => (.ok (.ofOutcome sh.config.limits outcome), s')
      | (.error e, s') => (.error e, s') := by
  rw [execute, h]
  show (sh.runScript ss >>= _) s = _
  cases hrun : sh.runScript ss s with
  | mk result s' =>
    cases result with
    | error e => exact bind_apply_error hrun
    | ok outcome => exact bind_apply_ok hrun

/-- Two scripts with a line break between them are read as the sequences of both. They run as the
first script and then the second one from where the first one left the session, with its exit code
recorded there; the outputs are joined, and a fatal failure of the first script is one of both. -/
theorem execute_append_newline {first second : String} {a b : Script}
    (ha : Script.parse first = .ok a) (hb : Script.parse second = .ok b)
    (hseam : Token.scan (first ++ "\n")
      = (Token.scan first).map (· ++ [Token.operator .newline])) (s : Session W) :
    Script.parse (first ++ "\n" ++ second) = .ok (a ++ b)
      ∧ match sh.runScript a s with
        | (.error e, mid) =>
          sh.execute first s = (.error e, mid)
            ∧ sh.execute (first ++ "\n" ++ second) s = (.error e, mid)
        | (.ok outcome, mid) =>
          sh.execute first s = (.ok (.ofOutcome sh.config.limits outcome), mid)
            ∧ mid.state.lastExitCode = outcome.exitCode
            ∧ match sh.runScript b mid with
              | (.error e, final) =>
                sh.execute second mid = (.error e, final)
                  ∧ sh.execute (first ++ "\n" ++ second) s = (.error e, final)
              | (.ok outcome', final) =>
                let joined : CommandOutcome := ⟨outcome'.exitCode,
                  outcome.stdout ++ outcome'.stdout, outcome.stderr ++ outcome'.stderr⟩
                sh.execute second mid = (.ok (.ofOutcome sh.config.limits outcome'), final)
                  ∧ sh.runScript (a ++ b) s = (.ok joined, final)
                  ∧ sh.execute (first ++ "\n" ++ second) s
                    = (.ok (.ofOutcome sh.config.limits joined), final) := by
  have hparse := Script.parse_append_newline ha hb hseam
  -- a script that is appended runs in the state that the first one leaves
  have hrun : sh.runScript (a ++ b) = (do
      let outcome ← sh.runScript a
      return outcome.followedBy (← sh.runScript b)) := Run.script_append a b
  refine ⟨hparse, ?_⟩
  rw [sh.execute_of_parse ha, sh.execute_of_parse hparse, hrun]
  cases hfirst : sh.runScript a s with
  | mk result mid =>
    cases result with
    | error e => exact ⟨rfl, by rw [bind_apply_error hfirst]⟩
    | ok outcome =>
      refine ⟨rfl, Run.lastExitCode_of_script hfirst, ?_⟩
      rw [sh.execute_of_parse hb, bind_apply_ok hfirst]
      cases hsecond : sh.runScript b mid with
      | mk result' final =>
        cases result' with
        | error e => exact ⟨rfl, by rw [bind_apply_error hsecond]⟩
        | ok outcome' =>
          rw [bind_apply_ok hsecond]
          exact ⟨rfl, rfl, rfl⟩

/-- After `false` on the empty tree, `echo $?` finds the exit code 1. -/
theorem execute_append_newline_false :
    ∃ a b mid, Script.parse "false" = .ok a ∧ Script.parse "echo $?" = .ok b
      ∧ Script.parse ("false" ++ "\n" ++ "echo $?") = .ok (a ++ b)
      ∧ ({} : Shell Tree).runScript a ⟨.empty, {}⟩ = (.ok { exitCode := 1 }, mid)
      ∧ mid.state.lastExitCode = 1 := by
  have hfalse : (Script.parse "false").map
      (fun a => (({} : Shell Tree).runScript a ⟨.empty, {}⟩).1) = .ok (.ok { exitCode := 1 }) := by
    decide +kernel
  obtain ⟨a, ha, hresult⟩ := exists_of_map_eq_ok hfalse
  obtain ⟨b, hb⟩ : ∃ b, Script.parse "echo $?" = .ok b := exists_of_isOk (by decide +kernel)
  have h := execute_append_newline ({} : Shell Tree) ha hb (by decide +kernel) ⟨.empty, {}⟩
  cases hrun : ({} : Shell Tree).runScript a ⟨.empty, {}⟩ with
  | mk result mid =>
    rw [hrun] at h hresult
    cases hresult
    exact ⟨a, b, mid, ha, hb, h.1, hrun, h.2.2.1⟩

end Shell

end Sandshell
