import Sandshell.Proofs.Shell.Delivery
import Sandshell.Proofs.Shell.Visit

/-!
# Redirected output

Redirections are read from left to right: the last one of a stream says where it goes, and an error
stream that joins the output stream goes where that one goes at this point. Once the command has run,
each stream is in its place as a whole, and nothing else has changed.
-/

namespace Sandshell

open Workspace (KeepsFiles contents?)
open Sandshell.Path (IsNormal)

/-! ## Redirections in order -/

/-- A redirection of output whose target has been resolved. -/
inductive Directed where
  | opens (stream : OutputStream) (mode : OpenMode) (path : String)
  /-- The errors go where the output goes at this point. -/
  | joins
deriving DecidableEq, Repr

namespace Directed

/-- The file that is opened. -/
def opened? : Directed → Option (String × OpenMode)
  | .opens _ mode path => some (path, mode)
  | .joins => none

/-- The files that are opened, in order. -/
def opened (ds : List Directed) : List (String × OpenMode) :=
  ds.filterMap opened?

/-- The sink of the output, read off the redirections from the last one back. -/
def outSink : List Directed → Sink
  | [] => .out
  | .opens .out mode path :: _ => .file path mode
  | _ :: earlier => outSink earlier

/-- The sink of the errors, read off the redirections from the last one back. -/
def errSink : List Directed → Sink
  | [] => .err
  | .opens .err mode path :: _ => .file path mode
  | .joins :: earlier => outSink earlier
  | .opens .out _ _ :: earlier => errSink earlier

variable (ds : List Directed)

/-- What a place gets of the streams of a command: the output and then the errors, each if its sink
is there. -/
def received (outcome : CommandOutcome) (place : Place) : Bytes :=
  (if place = (outSink ds.reverse).place then outcome.stdout else [])
    ++ if place = (errSink ds.reverse).place then outcome.stderr else []

/-- The mode in which the file at a path is written, if it is one that is opened: that of the sink of
the output, or else that of the sink of the errors, or else the first one. -/
def modeAt (path : String) : Option OpenMode :=
  ((outSink ds.reverse).modeAt path |>.or ((errSink ds.reverse).modeAt path)).or
    ((opened ds).lookup path)

/-- Where the output is sent. -/
def routing : Routing :=
  ⟨outSink ds.reverse, errSink ds.reverse, opened ds⟩

/-- What is delivered of the output of a command. -/
def delivery (outcome : CommandOutcome) : Delivery :=
  .ofOutcome (routing ds) outcome

end Directed

/-- A routing with one redirection more. -/
def Routing.direct (r : Routing) : Directed → Routing
  | .opens stream mode path => r.toFile stream mode path
  | .joins => r.joinErrors

/-- Reading from left to right comes to the same sinks. By induction on the last redirection. -/
theorem Directed.foldl_direct (ds : List Directed) :
    ds.foldl Routing.direct {} = routing ds := by
  induction ds using List.reverseRecOn with
  | nil => rfl
  | append_singleton earlier d ih =>
    -- the last redirection is the first one of the reversed list
    rw [List.foldl_append, ih, routing, routing, List.reverse_append]
    cases d with
    | opens stream mode path =>
      cases stream <;> simp [Routing.direct, Routing.toFile, outSink, errSink, opened, opened?]
    | joins => simp [Routing.direct, Routing.joinErrors, outSink, errSink, opened, opened?]

namespace Directed

variable {ds : List Directed} {path : String} {mode : OpenMode}

theorem mem_opened_reverse : (path, mode) ∈ opened ds.reverse ↔ (path, mode) ∈ opened ds := by
  rw [opened, opened, List.filterMap_reverse, List.mem_reverse]

/-- The file that the output goes to has been opened. -/
theorem mem_opened_of_outSink (h : outSink ds = .file path mode) : (path, mode) ∈ opened ds := by
  fun_induction outSink ds with
  | case1 => cases h
  | case2 mode' path' earlier =>
    cases h
    exact List.mem_cons_self
  | case3 d earlier _ ih =>
    have hearlier := ih h
    rw [opened, List.filterMap_cons]
    split
    · exact hearlier
    · exact List.mem_cons_of_mem _ hearlier

/-- So has that of the errors. -/
theorem mem_opened_of_errSink (h : errSink ds = .file path mode) : (path, mode) ∈ opened ds := by
  fun_induction errSink ds with
  | case1 => cases h
  | case2 mode' path' earlier =>
    cases h
    exact List.mem_cons_self
  | case3 earlier => exact mem_opened_of_outSink h
  | case4 mode' path' earlier ih => exact List.mem_cons_of_mem _ (ih h)

/-- A file that is written is one that was opened, in the mode of one of its openings. -/
theorem mem_opened_of_modeAt (h : modeAt ds path = some mode) : (path, mode) ∈ opened ds := by
  rw [modeAt, Option.or_eq_some_iff, Option.or_eq_some_iff, Sink.modeAt_eq_some_iff,
    Sink.modeAt_eq_some_iff] at h
  obtain (hout | ⟨-, herr⟩) | ⟨-, hopened⟩ := h
  · exact mem_opened_reverse.1 (mem_opened_of_outSink hout)
  · exact mem_opened_reverse.1 (mem_opened_of_errSink herr)
  · obtain ⟨before, after, hsplit, -⟩ := List.lookup_eq_some_iff.1 hopened
    rw [hsplit]
    exact List.mem_append_right _ List.mem_cons_self

/-- Output goes to no other files than those that were opened. -/
theorem exists_mem_opened (h : path ∈ (routing ds).paths) : ∃ mode, (path, mode) ∈ opened ds := by
  rw [Routing.paths, List.mem_append, List.mem_append] at h
  obtain (hout | herr) | hopened := h
  · obtain ⟨mode, hsink⟩ := Sink.mem_paths_iff.1 hout
    exact ⟨mode, mem_opened_reverse.1 (mem_opened_of_outSink hsink)⟩
  · obtain ⟨mode, hsink⟩ := Sink.mem_paths_iff.1 herr
    exact ⟨mode, mem_opened_reverse.1 (mem_opened_of_errSink hsink)⟩
  · obtain ⟨⟨_, mode⟩, hmem, rfl⟩ := List.mem_map.1 hopened
    exact ⟨mode, hmem⟩

/-- A file without a mode has not been opened. -/
theorem modeAt_eq_none_iff : modeAt ds path = none ↔ ∀ mode, (path, mode) ∉ opened ds := by
  constructor
  · intro h mode hmem
    rw [modeAt, Option.or_eq_none_iff, List.lookup_eq_none_iff] at h
    exact absurd (h.2 _ hmem) (by simp)
  · intro h
    cases hmode : modeAt ds path with
    | none => rfl
    | some mode => exact absurd (mem_opened_of_modeAt hmode) (h mode)

/-- What is left on the output is what no file received of it. -/
theorem stdout_delivery (outcome : CommandOutcome) :
    (delivery ds outcome).stdout = received ds outcome .out :=
  Delivery.receivedAt_ofOutcome_eq _ outcome .out

theorem stderr_delivery (outcome : CommandOutcome) :
    (delivery ds outcome).stderr = received ds outcome .err :=
  Delivery.receivedAt_ofOutcome_eq _ outcome .err

/-- What a file is given is what it receives. -/
theorem dataAt_delivery (outcome : CommandOutcome) :
    FileOutput.dataAt path (delivery ds outcome).files = received ds outcome (.file path) :=
  Delivery.receivedAt_ofOutcome_eq _ outcome (.file path .truncate)

/-- It is opened in the mode that counts. -/
theorem modeAt_delivery (outcome : CommandOutcome) :
    FileOutput.modeAt path (delivery ds outcome).files = modeAt ds path :=
  Delivery.modeAt_ofOutcome _ outcome path

end Directed

/-! ## Runs of commands -/

namespace Run

variable {W : Type} [Workspace W]

/-- Resolves the targets of redirections of output, with diagnostics. -/
def directed (substitute : Substitute W) : List Redirection → ShellM W (List Directed × Bytes)
  | [] => return ([], [])
  | .input _ :: rest => directed substitute rest
  | .errorsToOutput :: rest => do
    let (ds, diagnostics) ← directed substitute rest
    return (.joins :: ds, diagnostics)
  | .output stream mode w :: rest => do
    let (path, diagnostics) ← target substitute w
    let (ds, more) ← directed substitute rest
    return (.opens stream mode path :: ds, diagnostics ++ more)

/-- What a command does between its redirections. -/
def body (sh : Shell W) (substitute : Substitute W) (stdin : Bytes) :
    Command → ShellM W CommandOutcome
  | .simple words _ => simple sh substitute words stdin
  | .group script _ => ShellM.isolated (Run.script sh substitute stdin script)

variable {sh : Shell W} {substitute : Substitute W} {c : Command} {first : Bool} {stdin : Bytes}
variable {s s₁ s₂ s₃ : Session W}

/-- The redirections of a command have been resolved and it has run between them. What was said when
they were resolved comes before its errors. -/
inductive Ran (sh : Shell W) (substitute : Substitute W) (first : Bool) (stdin : Bytes) (c : Command)
    (s : Session W) : List Directed → CommandOutcome → Session W → Prop
  | intro {data inputDiagnostics outputDiagnostics : Bytes} {ds : List Directed}
    {outcome : CommandOutcome} {s₁ s₂ s₃ : Session W}
    (hinput : input substitute c.redirections first stdin s = (.ok (data, inputDiagnostics), s₁))
    (hdirected : directed substitute c.redirections s₁ = (.ok (ds, outputDiagnostics), s₂))
    (hbody : body sh substitute data c s₂ = (.ok outcome, s₃)) :
    Ran sh substitute first stdin c s ds
      (outcome.withDiagnostics (inputDiagnostics ++ outputDiagnostics)) s₃

/-- Redirections direct the streams one after the other. -/
theorem routing_of_directed {redirections : List Redirection} {ds : List Directed}
    {diagnostics : Bytes} (h : directed substitute redirections s = (.ok (ds, diagnostics), s₁))
    (r : Routing) :
    routing substitute r redirections s = (.ok (ds.foldl Routing.direct r, diagnostics), s₁) := by
  induction redirections generalizing r ds diagnostics s with
  | nil =>
    cases h
    rfl
  | cons redirection rest ih =>
    cases redirection with
    | input w => exact ih h r
    | errorsToOutput =>
      obtain ⟨⟨more, said⟩, mid, hrest, hlast⟩ := exists_of_bind_apply_ok h
      cases hlast
      exact ih hrest r.joinErrors
    | output stream mode w =>
      obtain ⟨⟨path, mine⟩, mid, htarget, hrest⟩ := exists_of_bind_apply_ok h
      obtain ⟨⟨more, said⟩, mid', hmore, hlast⟩ := exists_of_bind_apply_ok hrest
      cases hlast
      rw [routing, bind_apply_ok htarget]
      dsimp only
      rw [bind_apply_ok (ih hmore _)]
      rfl

/-- A command is what it does between its redirections, and then delivers. -/
theorem command_of_ran {ds : List Directed} {outcome : CommandOutcome}
    (h : Ran sh substitute first stdin c s ds outcome s₃) :
    command sh substitute first stdin c s = (do
      let delivery := Directed.delivery ds outcome
      ShellM.onWorkspace delivery.writeFiles
      return ⟨outcome.exitCode, delivery.stdout, delivery.stderr⟩ : ShellM W CommandOutcome) s₃ := by
  have hcommand : command sh substitute first stdin c
      = redirected substitute c.redirections first stdin (body sh substitute · c) := by
    cases c <;> rw [command] <;> rfl
  cases h with
  | intro hinput hdirected hbody =>
    have hrouting := routing_of_directed hdirected {}
    rw [Directed.foldl_direct] at hrouting
    rw [hcommand, redirected, bind_apply_ok hinput]
    dsimp only
    rw [bind_apply_ok hrouting]
    dsimp only
    rw [bind_apply_ok hbody]
    rfl

/-- From a normal directory all files that are opened have normal paths. -/
theorem isNormal_of_directed {redirections : List Redirection} {ds : List Directed}
    {diagnostics : Bytes} (hcwd : IsNormal s.state.cwd)
    (h : directed substitute redirections s = (.ok (ds, diagnostics), s₁)) :
    ∀ f ∈ Directed.opened ds, IsNormal f.1 := by
  induction redirections generalizing ds diagnostics s with
  | nil =>
    cases h
    exact List.forall_mem_nil _
  | cons redirection rest ih =>
    cases redirection with
    | input w => exact ih hcwd h
    | errorsToOutput =>
      obtain ⟨⟨more, said⟩, mid, hrest, hlast⟩ := exists_of_bind_apply_ok h
      cases hlast
      show ∀ f ∈ Directed.opened more, IsNormal f.1
      exact ih hcwd hrest
    | output stream mode w =>
      obtain ⟨⟨path, mine⟩, mid, htarget, hrest⟩ := exists_of_bind_apply_ok h
      obtain ⟨⟨more, said⟩, mid', hmore, hlast⟩ := exists_of_bind_apply_ok hrest
      cases hlast
      obtain ⟨operand, -, hresolve⟩ := of_target_eq_ok htarget
      have hstate : mid.state = s.state := (still_target w).ok htarget
      exact List.forall_mem_cons.2
        ⟨isNormal_of_resolvePath hcwd hresolve, ih (hstate ▸ hcwd) hmore⟩

/-- Only normal paths are opened. -/
theorem isNormal_of_ran {ds : List Directed} {outcome : CommandOutcome}
    (h : Ran sh substitute first stdin c s ds outcome s₃) (hcwd : IsNormal s.state.cwd) :
    ∀ f ∈ Directed.opened ds, IsNormal f.1 := by
  cases h with
  | intro hinput hdirected hbody =>
    have hstate : _ = s.state := (still_input _ _ _).ok hinput
    exact isNormal_of_directed (hstate ▸ hcwd) hdirected

/-! ## What is left of a run -/

section

variable {sound : W → Prop} {ds : List Directed} {outcome : CommandOutcome} {w' : W}
variable (hlaw : KeepsFiles sound) (hran : Ran sh substitute first stdin c s ds outcome s₃)
variable (hcwd : IsNormal s.state.cwd) (hsound : sound s₃.workspace)
variable (hwrites : (Directed.delivery ds outcome).writeFiles s₃.workspace = (.ok (), w'))

include hran hwrites in
/-- Once its files are written the command has succeeded, and the streams that were not sent to files
are in its outcome. -/
theorem command_eq_received : command sh substitute first stdin c s
    = (.ok ⟨outcome.exitCode, Directed.received ds outcome .out, Directed.received ds outcome .err⟩,
      ⟨w', s₃.state⟩) := by
  have hwritten : ShellM.onWorkspace (Directed.delivery ds outcome).writeFiles s₃
      = (.ok (), ⟨w', s₃.state⟩) := by
    rw [ShellM.onWorkspace, ShellM.onWorkspaceOr, hwrites]
  rw [command_of_ran hran]
  dsimp only
  rw [bind_apply_ok hwritten, Directed.stdout_delivery, Directed.stderr_delivery]
  rfl

include hlaw hran hcwd hsound hwrites in
/-- Each file that was opened has what its mode leaves of its contents, and then what it gets. All
others are as the command left them. -/
theorem contents?_of_ran {p : String} (hp : IsNormal p) :
    contents? w' p = match Directed.modeAt ds p with
      | none => contents? s₃.workspace p
      | some mode => some (mode.kept (contents? s₃.workspace p)
        ++ Directed.received ds outcome (.file p)) := by
  have hpaths : ∀ q ∈ (Directed.delivery ds outcome).paths, IsNormal q := by
    intro q hq
    obtain ⟨mode, hmem⟩ := Directed.exists_mem_opened (Delivery.mem_paths_of_ofOutcome hq)
    exact isNormal_of_ran hran hcwd (q, mode) hmem
  -- no file is written twice, so what it held when the command was through is what is kept
  have hnodup : (Directed.delivery ds outcome).paths.Nodup := Delivery.nodup_paths_ofOutcome _ _
  have hcontents := Delivery.of_writeFiles_ok hlaw hsound hpaths hnodup hwrites hp
  rw [Directed.modeAt_delivery, Directed.dataAt_delivery] at hcontents
  exact hcontents

end

/-- A redirection of output to a file with a plain name. -/
def toPlain (stream : OutputStream) (mode : OpenMode) (name : String) : Redirection :=
  .output stream mode (.bare name)

/-- A plain name is opened where it resolves to. -/
theorem directed_toPlain {W : Type} [Workspace W] {substitute : Substitute W} {s : Session W}
    {stream : OutputStream} {mode : OpenMode} {name path : String} {rest : List Redirection}
    {ds : List Directed} (hname : Expand.IsLiteral name)
    (hpath : resolvePath s.state.cwd name = .ok path)
    (hrest : directed substitute rest s = (.ok (ds, []), s)) :
    directed substitute (toPlain stream mode name :: rest) s
      = (.ok (.opens stream mode path :: ds, []), s) := by
  have htarget : target substitute (.bare name) s = (.ok (path, []), s) :=
    target_of_word (Expand.word_literal _ _ hname) hname.1 hpath
  rw [toPlain, directed, bind_apply_ok htarget]
  dsimp only
  rw [bind_apply_ok hrest]
  rfl

/-- A command that prints `hi`. -/
def echoHi (redirections : List Redirection) : Command :=
  .simple [.bare "echo", .bare "hi"] redirections

/-- Two files with something in them. -/
def oldFiles : Session Tree :=
  ⟨Tree.ofFiles [("f", Bytes.ofString "old\n"), ("g", Bytes.ofString "kept\n")], {}⟩

/-- The command runs as soon as its redirections have resolved. -/
theorem ran_echoHi {W : Type} [Workspace W] {w : W} {redirections : List Redirection}
    {ds : List Directed}
    (hinput : input (Shell.substitute {} 0) redirections true [] ⟨w, {}⟩ = (.ok ([], []), ⟨w, {}⟩))
    (hdirected : directed (Shell.substitute {} 0) redirections ⟨w, {}⟩
      = (.ok (ds, []), ⟨w, {}⟩)) :
    Ran {} (Shell.substitute {} 0) true [] (echoHi redirections) ⟨w, {}⟩ ds
      { stdout := Bytes.ofString "hi\n" } ⟨w, {}⟩ := by
  have hliteral : ∀ text ∈ ["echo", "hi"], Expand.IsLiteral text := by decide
  have hbody : body {} (Shell.substitute {} 0) [] (echoHi redirections) ⟨w, {}⟩
      = (.ok { stdout := Bytes.ofString "hi\n" }, ⟨w, {}⟩) :=
    simple_of_words rfl (Expand.words_literals _ _ hliteral) []
  exact .intro hinput hdirected hbody

section

variable {sound : W → Prop} {ds : List Directed} {outcome : CommandOutcome} {w' : W} {p : String}

/-- A file that one of the redirections truncates holds nothing but output of the command exactly if
it is written in that mode, or had nothing in it. Otherwise its old contents are still there. -/
theorem truncated_holds_only_output_iff (hlaw : KeepsFiles sound)
    (hran : Ran sh substitute first stdin c s ds outcome s₃) (hcwd : IsNormal s.state.cwd)
    (hsound : sound s₃.workspace)
    (hwrites : (Directed.delivery ds outcome).writeFiles s₃.workspace = (.ok (), w'))
    (htruncated : (p, .truncate) ∈ Directed.opened ds) :
    (∃ result, command sh substitute first stdin c s = (.ok result, ⟨w', s₃.state⟩))
      ∧ (contents? w' p = some (Directed.received ds outcome (.file p))
        ↔ Directed.modeAt ds p = some .truncate ∨ (contents? s₃.workspace p).getD [] = [])
      ∧ (Directed.modeAt ds p ≠ some .truncate → contents? w' p
        = some ((contents? s₃.workspace p).getD [] ++ Directed.received ds outcome (.file p))) := by
  refine ⟨⟨_, command_eq_received hran hwrites⟩, ?_⟩
  have hp : IsNormal p := isNormal_of_ran hran hcwd (p, .truncate) htruncated
  rw [contents?_of_ran hlaw hran hcwd hsound hwrites hp]
  cases hmode : Directed.modeAt ds p with
  | none => exact absurd htruncated (Directed.modeAt_eq_none_iff.1 hmode .truncate)
  | some mode =>
    cases mode with
    | truncate => simp [OpenMode.kept]
    | append => simp [OpenMode.kept]

end

/-- `echo hi > f >> f`. -/
def echoTwice : Command :=
  echoHi [toPlain .out .truncate "f", toPlain .out .append "f"]

theorem ran_echoTwice {W : Type} [Workspace W] (w : W) :
    Ran {} (Shell.substitute {} 0) true [] echoTwice ⟨w, {}⟩
      [.opens .out .truncate "f", .opens .out .append "f"] { stdout := Bytes.ofString "hi\n" }
      ⟨w, {}⟩ :=
  ran_echoHi rfl (directed_toPlain (by decide) rfl (directed_toPlain (by decide) rfl rfl))

/-- The output goes to `f` by the second redirection, and only the mode of that one counts. -/
theorem truncated_holds_only_output_iff_appended :
    ∃ w', (∃ result, command ({} : Shell Tree) (Shell.substitute {} 0) true [] echoTwice oldFiles
        = (.ok result, ⟨w', oldFiles.state⟩))
      ∧ contents? w' "f" = some (Bytes.ofString "old\nhi\n") := by
  let ds : List Directed := [.opens .out .truncate "f", .opens .out .append "f"]
  let outcome : CommandOutcome := { stdout := Bytes.ofString "hi\n" }
  have hwrites : ((Directed.delivery ds outcome).writeFiles oldFiles.workspace).1
      = .ok () := by decide +kernel
  have htruncated : ("f", .truncate) ∈ Directed.opened ds := by decide
  obtain ⟨hcommand, -, hkept⟩ := truncated_holds_only_output_iff Tree.keepsFiles
    (ran_echoTwice _) (by decide +kernel) trivial (Prod.ext hwrites rfl) htruncated
  exact ⟨_, hcommand, (hkept (by decide)).trans (by decide +kernel)⟩

/-- What `f` held stays before the output. -/
theorem not_forall_truncated_holds_only_output : ¬ ∀ (sh : Shell Tree) (depth : Nat) (c : Command)
    (first : Bool) (stdin : Bytes) (s s₃ s' : Session Tree) (ds : List Directed)
    (outcome result : CommandOutcome) (p : String), IsNormal s.state.cwd →
    Ran sh (sh.substitute depth) first stdin c s ds outcome s₃ →
    command sh (sh.substitute depth) first stdin c s = (.ok result, s') →
    (p, .truncate) ∈ Directed.opened ds →
    contents? s'.workspace p = some (Directed.received ds outcome (.file p)) := by
  intro h
  have hcommand : (command {} (Shell.substitute {} 0) true [] echoTwice oldFiles).1
      = .ok ⟨0, [], []⟩ := by decide +kernel
  have hcontents := h {} 0 echoTwice true [] oldFiles oldFiles _ _ _ _ "f" (by decide +kernel)
    (ran_echoTwice _) (Prod.ext hcommand rfl) (by decide)
  exact absurd hcontents (by decide +kernel)

end Run

end Sandshell
