import Sandshell.Proofs.Bundle.Output
import Sandshell.Proofs.Shell.Agreement
import Sandshell.Proofs.Shell.Fault

/-!
# Ceilings of the output

Pipes, files and substitutions carry all that is written to them. Without a delegate the ceilings of
a shell count only when a whole script has run: they cut what is captured of its output, each stream
at its own.
-/

namespace Sandshell

/-- What an outcome has of a stream. -/
def CommandOutcome.output (outcome : CommandOutcome) : OutputStream → Bytes
  | .out => outcome.stdout
  | .err => outcome.stderr

theorem ExecutionResult.captured_ofOutcome (limits : OutputLimits) (outcome : CommandOutcome)
    (stream : OutputStream) :
    (ofOutcome limits outcome).captured stream
      = ((outcome.output stream).take (limits.ceiling stream),
        decide (limits.ceiling stream < (outcome.output stream).length)) := by
  cases stream with
  | out => exact Prod.ext (Capture.ofBytes_bytes _ _) (Capture.ofBytes_truncated _ _)
  | err => exact Prod.ext (Capture.ofBytes_bytes _ _) (Capture.ofBytes_truncated _ _)

namespace Shell

variable {W : Type}

/-- The shell under other ceilings. -/
def withLimits (sh : Shell W) (limits : OutputLimits) : Shell W :=
  { sh with config := { sh.config with limits } }

variable [Workspace W] {sh : Shell W}

/-- What a text comes to before any output is cut. -/
def outcome (sh : Shell W) (text : String) : ShellM W CommandOutcome :=
  match Script.parse text with
  | .error e => throw (.parse e)
  | .ok script => sh.runScript script

/-- The ceilings of its shell cut the outcome of a text. -/
theorem execute_eq_outcome (sh : Shell W) (text : String) (s : Session W) :
    sh.execute text s
      = (((sh.outcome text s).1.map (.ofOutcome sh.config.limits)), (sh.outcome text s).2) := by
  cases hparse : Script.parse text with
  | error e =>
    rw [sh.execute_of_parse_error hparse, outcome, hparse]
    rfl
  | ok script =>
    rw [sh.execute_of_parse hparse, outcome, hparse]
    dsimp only
    split
    · next hrun => rw [hrun]; rfl
    · next hrun => rw [hrun]; rfl

/-- Without a delegate no part of a run looks at the ceilings. -/
theorem outcome_withLimits (hd : sh.delegate? = none) (limits : OutputLimits) (text : String) :
    (sh.withLimits limits).outcome text = sh.outcome text := by
  have hnamed : Run.named (sh.withLimits limits) = Run.named sh :=
    Run.named_config rfl rfl fun d h => by simp [hd] at h
  unfold outcome
  split
  · rfl
  · next script _ =>
    have hsubstitute := substitute_congr hnamed rfl sh.config.maxSubstitutionDepth
    show Run.script _ ((sh.withLimits limits).substitute sh.config.maxSubstitutionDepth) _ _ = _
    rw [hsubstitute]
    exact Run.script_eq_of_agree hnamed [] script fun _ _ _ => rfl

/-- Without a delegate, runs of a text under all ceilings leave the session that its outcome leaves.
They fail as it fails, and otherwise have its exit code, and of each stream what fits under the
ceiling of that stream; and they tell of each stream whether there was more. -/
theorem limits_cut_only_the_capture (hd : sh.delegate? = none) (text : String) (s : Session W)
    (limits : OutputLimits) :
    ((sh.withLimits limits).execute text s).2 = (sh.outcome text s).2
      ∧ match (sh.outcome text s).1 with
        | .error e => ((sh.withLimits limits).execute text s).1 = .error e
        | .ok outcome => ∃ result : ExecutionResult,
          ((sh.withLimits limits).execute text s).1 = .ok result
            ∧ result.exitCode = outcome.exitCode
            ∧ ∀ stream, result.captured stream
              = ((outcome.output stream).take (limits.ceiling stream),
                decide (limits.ceiling stream < (outcome.output stream).length)) := by
  rw [execute_eq_outcome, outcome_withLimits hd]
  refine ⟨rfl, ?_⟩
  cases (sh.outcome text s).1 with
  | error e => rfl
  | ok outcome =>
    exact ⟨_, rfl, rfl, fun stream => ExecutionResult.captured_ofOutcome limits outcome stream⟩

/-- Writes through a pipe, a substitution and a file, and ends with a command that is unknown. -/
def carried : String := "echo abc | cat; echo $(echo def) > f; cat f; nope"

/-- What is cut from the output still reached the file, and the file the output. -/
theorem limits_cut_only_the_capture_carried :
    ({} : Shell Tree).delegate? = none
      ∧ ∃ result, ((({} : Shell Tree).withLimits ⟨5, 3⟩).execute carried ⟨.empty, {}⟩).1 = .ok result
        ∧ result.exitCode = 127
        ∧ result.captured .out = (Bytes.ofString "abc\nd", true)
        ∧ result.captured .err = (Bytes.ofString "nop", true) := by
  have houtcome : (({} : Shell Tree).outcome carried ⟨.empty, {}⟩).1
      = .ok ⟨127, Bytes.ofString "abc\ndef\n", Bytes.ofString "nope: command not found\n"⟩ := by
    decide +kernel
  have hd : ({} : Shell Tree).delegate? = none := rfl
  obtain ⟨-, hresult⟩ := limits_cut_only_the_capture hd carried ⟨.empty, {}⟩ ⟨5, 3⟩
  rw [houtcome] at hresult
  obtain ⟨result, hrun, hcode, hcaptured⟩ := hresult
  refine ⟨hd, result, hrun, hcode, (hcaptured .out).trans ?_, (hcaptured .err).trans ?_⟩
  · decide
  · decide

end Shell

end Sandshell
