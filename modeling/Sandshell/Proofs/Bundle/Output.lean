import Sandshell.Proofs.Bundle.Bridge
import Sandshell.Proofs.Guest.Streams
import Sandshell.Proofs.Shell.Quoting
import Sandshell.Proofs.Shell.Simple

/-!
# What is left of a guest's output

The engine cuts the output of a guest at the ceilings and tells whether there was more; the shell
cuts it again at the same ceilings. The second cut finds nothing to drop, so the shell never tells.
-/

namespace Sandshell

/-- What a result has of a stream: the bytes, and whether there were more. -/
def ExecutionResult.captured (r : ExecutionResult) : OutputStream → Bytes × Bool
  | .out => (r.stdout, r.stdoutTruncated)
  | .err => (r.stderr, r.stderrTruncated)

variable {W : Type} [Workspace W] {b : Bridge} {sh : Shell W} {text : String} {s s' : Session W}

namespace Bridge

variable {w w' : W} {r : CommandRequest} {module : GuestModule} {name : String}
variable {rest : List String} {out : CommandOutput}

/-- A command that succeeds on a snapshot gives what its guest left. -/
theorem exists_run_of_runOnSnapshot (h : b.runOnSnapshot module r w = (.ok out, w')) :
    ∃ before res, (Snapshot.take w).1 = .ok before
      ∧ Engine.run b.config b.surroundings (guestRequest module r (.snapshot before)) = .ok res
      ∧ out = output res := by
  obtain ⟨before, mid, htake, hrest⟩ := exists_of_bind_apply_ok h
  refine ⟨before, ?_⟩
  have hbefore : (Snapshot.take w).1 = .ok before := by
    rw [onWorkspace] at htake
    rcases hfirst : (Snapshot.take w : Except WorkspaceError FileSet × W) with ⟨e | files, _⟩
    · rw [hfirst] at htake
      cases htake
    · rw [hfirst] at htake
      cases htake
      rfl
  -- the streams are those of the run, whatever becomes of the files
  cases hrun : Engine.run b.config b.surroundings (guestRequest module r (.snapshot before)) with
  | error e =>
    rw [hrun] at hrest
    cases hrest
  | ok res =>
    rw [hrun] at hrest
    refine ⟨res, hbefore, rfl, ?_⟩
    dsimp only at hrest
    cases hfiles : res.files with
    | none =>
      rw [hfiles] at hrest
      cases hrest
      rfl
    | some after =>
      rw [hfiles] at hrest
      obtain ⟨_, _, -, hlast⟩ := exists_of_bind_apply_ok hrest
      cases hlast
      rfl

/-- A command that has a module runs on a snapshot, unless it runs on a host directory. -/
theorem run_eq_runOnSnapshot (hargv : r.argv = name :: rest) (hmodule : b.module name = .ok module)
    (hplace : b.mount = none ∨ Workspace.hostDirectory? w = none) :
    b.run r w = b.runOnSnapshot module r w := by
  rw [run, hargv]
  dsimp only
  rw [hmodule]
  dsimp only
  rw [get_bind_apply]
  rcases hplace with hmounts | hhost
  · rw [hmounts]
    cases Workspace.hostDirectory? w <;> rfl
  · rw [hhost]

theorem provides_of_module (hmodule : b.module name = .ok module) :
    (b.delegate : Delegate W).provides name := by
  unfold Bridge.module at hmodule
  split at hmodule
  · cases hmodule
  · next hfind =>
    show (b.registry.find? name).isSome
    rw [hfind]
    rfl

end Bridge

/-- A command without input, as a shell hands it to its delegate. -/
def Shell.request (sh : Shell W) (state : ShellState) (values : List (String × String))
    (argv : List String) : CommandRequest where
  argv
  cwd := state.cwd
  env := Run.withValues state.env values
  limits := sh.config.limits

namespace Run

/-- A name that is no builtin and that the delegate provides is the delegate's. -/
theorem named_delegated {d : Delegate W} (hdelegate : sh.delegate? = some d) {name : String}
    (hname : Builtin.named? name = none) (hprovides : d.provides name)
    (values : List (String × String)) (args : List String) (s : Session W) :
    named sh values name args [] s
      = delegate d (sh.request s.state values (name :: args)) s := by
  have hfind : Provider.find? sh.delegated name = some .delegate := by
    rw [Provider.find?, hname]
    simp [Shell.delegated, hdelegate, hprovides]
  rw [named, bind_apply_ok (show ShellM.state s = (.ok s.state, s) from rfl)]
  simp only [hfind, hdelegate]
  rfl

omit [Workspace W] in
/-- A delegate's output is the outcome of the command, byte for byte. -/
theorem delegate_apply_ok {d : Delegate W} {request : CommandRequest} {out : CommandOutput} {w : W}
    (h : d.run request s.workspace = (.ok out, w)) :
    delegate d request s
      = (.ok ⟨out.exitCode, out.stdout, out.stderr⟩, { s with workspace := w }) := by
  have hstep : ShellM.onWorkspaceOr ShellError.ofDelegate (d.run request) s
      = (.ok out, { s with workspace := w }) := by
    rw [ShellM.onWorkspaceOr, h]
  rw [delegate, bind_apply_ok hstep]
  rfl

end Run

/-! ## One command of a bundle -/

/-- The run of a script that is one command of a bundle, without redirections and substitutions. Its
guest runs on a snapshot, and what it leaves is written back. -/
structure BundleRun (sh : Shell W) (b : Bridge) (text : String) (s : Session W) where
  words : List Word
  values : List (String × String)
  name : String
  args : List String
  diagnostics : Bytes
  /-- The session after the expansion. -/
  expanded : Session W
  module : GuestModule
  out : CommandOutput
  after : W
  delegate_eq : sh.delegate? = some b.delegate
  parse_eq : Script.parse text = .ok [.chain [.simple words []] []]
  plain : ∀ w ∈ words, w.isPlain
  expansion_eq : Run.expansion (sh.substitute sh.config.maxSubstitutionDepth) words s
    = (.ok ((values, name :: args), diagnostics), expanded)
  no_builtin : Builtin.named? name = none
  module_eq : b.module name = .ok module
  not_mounted : b.mount = none ∨ Workspace.hostDirectory? expanded.workspace = none
  run_eq : b.runOnSnapshot module (sh.request s.state values (name :: args)) expanded.workspace
    = (.ok out, after)

namespace BundleRun

/-- What the engine is asked for, with the files that the workspace then holds. -/
def guestRequest (run : BundleRun sh b text s) (before : FileSet) : GuestRequest :=
  Bridge.guestRequest run.module (sh.request s.state run.values (run.name :: run.args))
    (.snapshot before)

/-- All that the guest writes to a stream, with the report on a trap. -/
def written (run : BundleRun sh b text s) (before : FileSet) (stream : OutputStream) :
    Except EngineError Bytes :=
  Engine.written stream b.config b.surroundings (run.guestRequest before)

/-- The script gives the exit code of the guest and what the shell's own ceilings leave of its
output. -/
theorem execute_eq (run : BundleRun sh b text s) :
    (sh.execute text s).1 = .ok (.ofOutcome sh.config.limits
      ⟨run.out.exitCode, run.out.stdout, run.out.stderr⟩) := by
  have hdiagnostics := Run.diagnostics_of_expansion run.plain run.expansion_eq
  have hstate : run.expanded.state = s.state := by
    rw [← Run.state_of_expansion (sh.substitute sh.config.maxSubstitutionDepth) run.words s,
      run.expansion_eq]
  have hrun : b.delegate.run (sh.request s.state run.values (run.name :: run.args))
      run.expanded.workspace = (.ok run.out, run.after) :=
    (Bridge.run_eq_runOnSnapshot rfl run.module_eq run.not_mounted).trans run.run_eq
  rw [← hstate] at hrun
  have hnamed : Run.named sh run.values run.name run.args [] run.expanded
      = (.ok ⟨run.out.exitCode, run.out.stdout, run.out.stderr⟩,
        { run.expanded with workspace := run.after }) := by
    rw [Run.named_delegated run.delegate_eq run.no_builtin
      (Bridge.provides_of_module run.module_eq)]
    exact Run.delegate_apply_ok hrun
  have hsimple : Run.simple sh (sh.substitute sh.config.maxSubstitutionDepth) run.words [] s
      = (.ok ⟨run.out.exitCode, run.out.stdout, run.out.stderr⟩,
        { run.expanded with workspace := run.after }) := by
    rw [Run.simple_apply, run.expansion_eq]
    dsimp only
    rw [hnamed, hdiagnostics]
    rfl
  exact sh.execute_lone run.parse_eq hsimple

/-- Each stream is cut at its ceiling, and the script does not tell. -/
theorem exists_captured (run : BundleRun sh b text s) :
    ∃ before res, (Snapshot.take run.expanded.workspace).1 = .ok before
      ∧ (sh.execute text s).1 = .ok res ∧ ∀ stream, ∃ data, run.written before stream = .ok data
        ∧ res.captured stream = (data.take (sh.config.limits.ceiling stream), false) := by
  obtain ⟨before, guest, hbefore, hguest, hout⟩ := Bridge.exists_run_of_runOnSnapshot run.run_eq
  refine ⟨before, _, hbefore, run.execute_eq, fun stream => ?_⟩
  obtain ⟨data, hdata, hcaptured⟩ := Engine.captured_of_run hguest stream
  refine ⟨data, hdata, ?_⟩
  rw [hout]
  -- what the engine left fits under the ceiling
  have hfits : (data.take (sh.config.limits.ceiling stream)).length
      ≤ sh.config.limits.ceiling stream := List.length_take_le _ _
  cases stream with
  | out =>
    obtain ⟨hbytes, -⟩ := Prod.mk.inj hcaptured
    show ((Capture.ofBytes _ guest.stdout).bytes, (Capture.ofBytes _ guest.stdout).truncated) = _
    rw [hbytes, Capture.ofBytes_bytes, Capture.ofBytes_truncated]
    exact Prod.ext (List.take_of_length_le hfits) (decide_eq_false (Nat.not_lt.2 hfits))
  | err =>
    obtain ⟨hbytes, -⟩ := Prod.mk.inj hcaptured
    show ((Capture.ofBytes _ guest.stderr).bytes, (Capture.ofBytes _ guest.stderr).truncated) = _
    rw [hbytes, Capture.ofBytes_bytes, Capture.ofBytes_truncated]
    exact Prod.ext (List.take_of_length_le hfits) (decide_eq_false (Nat.not_lt.2 hfits))

/-- A script that is one command of a bundle shows of each stream what fits under the ceiling. It
never tells that the guest wrote more, which is right just where the guest did not. -/
theorem captured_eq (run : BundleRun sh b text s) :
    ∃ before res, (Snapshot.take run.expanded.workspace).1 = .ok before
      ∧ (sh.execute text s).1 = .ok res ∧ ∀ stream, ∃ data, run.written before stream = .ok data
        ∧ (res.captured stream).1 = data.take (sh.config.limits.ceiling stream)
        ∧ (res.captured stream).2 = false
        ∧ (((res.captured stream).2 = true ↔ sh.config.limits.ceiling stream < data.length)
          ↔ data.length ≤ sh.config.limits.ceiling stream) := by
  obtain ⟨before, res, hbefore, hres, hcaptured⟩ := run.exists_captured
  refine ⟨before, res, hbefore, hres, fun stream => ?_⟩
  obtain ⟨data, hdata, heq⟩ := hcaptured stream
  refine ⟨data, hdata, congrArg Prod.fst heq, congrArg Prod.snd heq, ?_⟩
  rw [heq]
  simp

/-- Writes six bytes to its output. -/
def loud : List Step :=
  [.poke 0 (Bytes.ofString "abcdef"),
    .poke 16 (Bytes.littleEndian 4 0 ++ Bytes.littleEndian 4 6), .call (.fdWrite 1 16 1 32)]

/-- A shell that shows three bytes of the guest's output. -/
def shortShell : Shell Tree where
  config := { limits := .uniform 3 }
  delegate? := some (Bridge.installed loud).delegate

/-- The text `tool` is a command with one plain word. -/
theorem parse_tool : Script.parse "tool" = .ok [.chain [.simple [⟨[⟨.none, "tool"⟩]⟩] []] []] := by
  have hscan : Token.scan "tool" = .ok [.word ⟨[⟨.none, "tool"⟩]⟩] := by decide +kernel
  rw [Script.parse, hscan]
  exact Script.ofTokens_map_word (List.cons_ne_nil _ [])

theorem expansion_tool :
    Run.expansion (shortShell.substitute shortShell.config.maxSubstitutionDepth)
      [⟨[⟨.none, "tool"⟩]⟩] ⟨.empty, {}⟩ = (.ok (([], ["tool"]), []), ⟨.empty, {}⟩) := by
  have hliteral : ∀ text ∈ ["tool"], Expand.IsLiteral text := by decide
  exact Run.expansion_of_words rfl (Expand.words_literals _ _ hliteral)

/-- The command of such a guest on the empty tree. -/
def loudRun : BundleRun shortShell (Bridge.installed loud) "tool" ⟨.empty, {}⟩ where
  words := [⟨[⟨.none, "tool"⟩]⟩]
  values := []
  name := "tool"
  args := []
  diagnostics := []
  expanded := ⟨.empty, {}⟩
  module := .program { steps := loud }
  out := { stdout := Bytes.ofString "abc" }
  after := ((Bridge.installed loud).runOnSnapshot (.program { steps := loud })
    (shortShell.request {} [] ["tool"]) Tree.empty).2
  delegate_eq := rfl
  parse_eq := parse_tool
  plain := by decide +kernel
  expansion_eq := expansion_tool
  no_builtin := rfl
  module_eq := Bridge.module_installed loud
  not_mounted := .inl rfl
  run_eq := Prod.ext (by decide +kernel) rfl

/-- Of the six bytes that the guest writes to each stream three are kept, and nothing says that the
others are gone. -/
theorem captured_eq_loudRun :
    ∃ before res, (Snapshot.take loudRun.expanded.workspace).1 = .ok before
      ∧ (shortShell.execute "tool" ⟨.empty, {}⟩).1 = .ok res
      ∧ ∀ stream, ∃ data, loudRun.written before stream = .ok data
        ∧ (res.captured stream).1 = data.take 3 ∧ (res.captured stream).2 = false
        ∧ (((res.captured stream).2 = true ↔ 3 < data.length) ↔ data.length ≤ 3) := by
  obtain ⟨before, res, hbefore, hres, hcaptured⟩ := captured_eq loudRun
  refine ⟨before, res, hbefore, hres, fun stream => ?_⟩
  obtain ⟨data, h⟩ := hcaptured stream
  cases stream <;> exact ⟨data, h⟩

theorem written_loudRun : loudRun.written ∅ .out = .ok (Bytes.ofString "abcdef") := by
  decide +kernel

/-- Six bytes under a ceiling of three: the script does not tell that three are missing. -/
theorem not_forall_truncated_iff : ¬ ∀ (sh : Shell Tree) (b : Bridge) (text : String)
    (s : Session Tree) (run : BundleRun sh b text s) (before : FileSet) (res : ExecutionResult)
    (stream : OutputStream) (data : Bytes),
    (Snapshot.take run.expanded.workspace).1 = .ok before → (sh.execute text s).1 = .ok res →
    run.written before stream = .ok data →
    ((res.captured stream).2 = true ↔ sh.config.limits.ceiling stream < data.length) := by
  intro hall
  obtain ⟨before, res, hbefore, hres, hcaptured⟩ := loudRun.exists_captured
  have hempty : Tree.empty.WellFormed := Tree.wellFormed_of_files (by decide +kernel)
  have htake : (Snapshot.take loudRun.expanded.workspace).1 = .ok ∅ :=
    congrArg Prod.fst (Snapshot.take_apply hempty)
  obtain rfl : before = ∅ := Except.ok.inj (hbefore.symm.trans htake)
  obtain ⟨data, hdata, heq⟩ := hcaptured .out
  obtain rfl := Except.ok.inj (hdata.symm.trans written_loudRun)
  have htold := (hall _ _ _ _ loudRun ∅ res .out _ htake hres hdata).2 (by decide)
  rw [heq] at htold
  cases htold

end BundleRun

end Sandshell
