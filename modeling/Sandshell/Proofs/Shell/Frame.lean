import Sandshell.Proofs.Script.Characters
import Sandshell.Proofs.Shell.Delivery
import Sandshell.Proofs.Shell.Variables
import Sandshell.Proofs.Workspace.Terms
import Sandshell.Shell.Run

/-!
# What scripts do to a workspace

A script moves the workspace by the calls that it makes and by nothing else. So what the calls of a
shell keep is kept by all scripts, whatever they nest: the calls name only paths that are made from
the working directory, and files are written only where `>` stands in the text of the script, since
the values of expansions are never read as scripts again.
-/

namespace Sandshell

open Workspace (Terms)
open Invariant (keeps_pure keeps_throw)

/-! ## Redirections -/

/-- The input is redirected by one of the redirections. -/
theorem Run.mem_of_inputTarget? {redirections : List Redirection} {w : Word}
    (h : Run.inputTarget? redirections = some w) : .input w ∈ redirections := by
  induction redirections with
  | nil => contradiction
  | cons r rest ih =>
    cases r with
    | input target =>
      rw [Run.inputTarget?, Option.or_eq_some_iff] at h
      obtain hrest | ⟨-, htarget⟩ := h
      · exact List.mem_cons_of_mem _ (ih hrest)
      · rw [Option.some.inj htarget]
        exact List.mem_cons_self
    | output => exact List.mem_cons_of_mem _ (ih h)
    | errorsToOutput => exact List.mem_cons_of_mem _ (ih h)

/-- Of the failures of steps on the workspace only those without an end are fatal. -/
theorem isFatal_workspace {e : WorkspaceError} (he : e ≠ .endless) :
    (ShellError.workspace e).isFatal = false := by
  cases e with
  | endless => contradiction
  | _ => rfl

/-- An endless walk is reported as such by a delegate only. -/
theorem ShellError.eq_of_ofDelegate {e : DelegateError}
    (h : ShellError.ofDelegate e = .workspace .endless) : e = .workspace .endless := by
  unfold ofDelegate at h
  split at h
  · cases h
  · rfl
  · cases h

/-- What is fatal of a delegate's errors is a fault of its engine or an endless walk. -/
theorem ShellError.eq_of_isFatal_ofDelegate {e : DelegateError}
    (h : (ShellError.ofDelegate e).isFatal = true) :
    (∃ fault, e = .engine fault) ∨ e = .workspace .endless := by
  unfold ofDelegate at h
  split at h
  · exact .inl ⟨_, rfl⟩
  · exact .inr rfl
  · cases h

/-- A path that does not resolve is never fatal. -/
theorem isFatal_of_resolvePath {cwd path : String} {e : ShellError}
    (h : resolvePath cwd path = .error e) : e.isFatal = false := by
  unfold resolvePath at h
  split at h
  · cases h
  · cases h
    rfl

/-! ## Terms of a shell -/

namespace Workspace.Terms

variable {W : Type}

/-- The terms let a text be run: where it holds a `>`, files may be written. -/
def Admits (terms : Terms W) (chars : List Char) : Prop :=
  '>' ∈ chars → terms.writes

/-- What is kept by steps of a session; the working directory is within the terms. -/
abbrev session (terms : Terms W) : Invariant (Session W) ShellError where
  holds s := terms.holds s.workspace ∧ terms.path s.state.cwd
  fails e s := terms.fails e s.workspace ∧ terms.path s.state.cwd

/-- What is kept by steps of an expansion. -/
abbrev expanding (terms : Terms W) : Invariant (Expanding W) ShellError where
  holds e := terms.holds e.workspace
  fails error e := terms.fails error e.workspace

/-- The terms permit what a shell does: looking, writing where that is allowed, and what its delegate
does. A stage whose failure is not fatal leaves what a success leaves. Where walks may have no end,
a script may have none. -/
structure Permits [Workspace W] (terms : Terms W) (sh : Shell W) : Prop extends terms.Sound where
  write : ∀ {p} data, terms.writes → terms.path p →
    (Invariant.steady terms.holds).Keeps (Workspace.write p data : WorkspaceM W Unit) fun _ => True
  delegates : ∀ {d}, sh.delegate? = some d → ∀ request, terms.path request.cwd →
    (⟨terms.holds, fun e => terms.fails (.ofDelegate e)⟩ : Invariant W DelegateError).Keeps
      (d.run request) fun _ => True
  survives : ∀ {e : ShellError}, e.isFatal = false → ∀ {w}, terms.fails e w ↔ terms.holds w
  hangs : terms.endless → ∀ {w}, terms.holds w → terms.fails (.workspace .endless) w

/-- An expansion sees a working directory within the terms, and runs scripts that they admit. -/
structure Backs (terms : Terms W) (ctx : ExpandContext W) : Prop where
  path : terms.path ctx.state.cwd
  substitute : ∀ text, terms.Admits text.toList →
    terms.expanding.Keeps (ctx.substitute text) fun _ => True

/-- Scripts inside substitutions that the terms admit are kept by them. -/
def Runs (terms : Terms W) (substitute : Run.Substitute W) : Prop :=
  ∀ state text, terms.path state.cwd → terms.Admits text.toList →
    terms.expanding.Keeps (substitute state text) fun _ => True

variable {terms : Terms W} {chars chars' : List Char} {α : Type}

/-- Terms that admit a text admit less of it. -/
theorem Admits.mono (h : terms.Admits chars) (hsub : chars' ⊆ chars) : terms.Admits chars' :=
  fun harrow => h (hsub harrow)

theorem admits_append :
    terms.Admits (chars ++ chars') ↔ terms.Admits chars ∧ terms.Admits chars' := by
  simp only [Admits, List.mem_append, or_imp]

theorem Admits.flatMap {β : Type} {l : List β} {f : β → List Char}
    (h : terms.Admits (l.flatMap f)) {b : β} (hb : b ∈ l) : terms.Admits (f b) :=
  h.mono fun _ hx => List.mem_flatMap.2 ⟨b, hb, hx⟩

/-- What a word substitutes is among what the terms admit. -/
theorem Backs.keeps_substitute {ctx : ExpandContext W} (hctx : terms.Backs ctx) {w : Word}
    (hw : terms.Admits w.chars) :
    ∀ text ∈ w.scripts, terms.expanding.Keeps (ctx.substitute text) fun _ => True :=
  fun text htext => hctx.substitute text (hw.mono (Word.chars_subset_of_mem_scripts htext))

/-- They admit the words of a command. -/
theorem Admits.words {c : Command} (h : terms.Admits c.chars) :
    ∀ w ∈ c.words, terms.Admits w.chars :=
  fun _ hw => (h.mono (List.subset_append_left _ _)).flatMap hw

/-- And its redirections. -/
theorem Admits.redirections {c : Command} (h : terms.Admits c.chars) :
    ∀ r ∈ c.redirections, terms.Admits r.chars :=
  fun _ hr => (h.mono (List.subset_append_right _ _)).flatMap hr

/-! ## Steps of a session -/

theorem keeps_state :
    terms.session.Keeps (ShellM.state (W := W)) fun state => terms.path state.cwd :=
  fun _ hs => ⟨hs, hs.2⟩

/-- The state may change as long as the working directory is on the terms. -/
theorem keeps_modifyState {f : ShellState → ShellState}
    (hf : ∀ s, terms.path s.cwd → terms.path (f s).cwd) :
    terms.session.Keeps (ShellM.modifyState f : ShellM W Unit) fun _ => True :=
  fun s hs => ⟨⟨hs.1, hf s.state hs.2⟩, trivial⟩

/-- A step of the workspace may fail as the session does. -/
theorem keeps_onWorkspaceOr {ε : Type} {fail : ε → ShellError} {step : ExceptT ε (StateM W) α}
    {post : α → Prop}
    (h : (⟨terms.holds, fun e => terms.fails (fail e)⟩ : Invariant W ε).Keeps step post) :
    terms.session.Keeps (ShellM.onWorkspaceOr fail step) post := by
  intro s hs
  unfold ShellM.onWorkspaceOr
  split
  · next hstep =>
    obtain ⟨hholds, hpost⟩ := h.ok hs.1 hstep
    exact ⟨⟨hholds, hs.2⟩, hpost⟩
  · next hstep => exact ⟨h.error hs.1 hstep, hs.2⟩

/-- Inside, the working directory may be anywhere; outside it is what it was. -/
theorem keeps_isolated {step : ShellM W α} {post : α → Prop} (h : terms.session.Keeps step post) :
    terms.session.Keeps (ShellM.isolated step) post := by
  intro s hs
  have hkept := h s hs
  unfold ShellM.isolated
  rcases hstep : step s with ⟨e | a, s'⟩
  · rw [hstep] at hkept
    exact ⟨hkept.1, hs.2⟩
  · rw [hstep] at hkept
    exact ⟨⟨hkept.1.1, hs.2⟩, hkept.2⟩

/-- Expanding keeps what its workspace keeps. -/
theorem keeps_expanding {step : ExpandM W α} {post : α → Prop}
    (h : terms.expanding.Keeps step post) :
    terms.session.Keeps (ShellM.expanding step) fun r => post r.1 := by
  intro s hs
  unfold ShellM.expanding
  split
  · next hstep =>
    obtain ⟨hholds, hpost⟩ := h.ok hs.1 hstep
    exact ⟨⟨hholds, hs.2⟩, hpost⟩
  · next hstep => exact ⟨h.error hs.1 hstep, hs.2⟩

theorem keeps_recorded {pipeline : ShellM W CommandOutcome}
    (h : terms.session.Keeps pipeline fun _ => True) :
    terms.session.Keeps (Run.recorded pipeline) fun _ => True :=
  h.before fun outcome =>
    have hrecord : terms.session.Keeps (ShellM.modifyState (W := W)
        fun s => { s with lastExitCode := outcome.exitCode }) fun _ => True :=
      keeps_modifyState fun _ hs => hs
    hrecord.before fun _ => keeps_pure trivial

/-- What an expansion needs of the scripts inside it is that they keep the terms. -/
theorem Runs.keeps_expand {substitute : Run.Substitute W} (hruns : terms.Runs substitute)
    {step : ExpandContext W → ExpandM W α} (post : α → Prop)
    (hstep : ∀ ctx, terms.Backs ctx → terms.expanding.Keeps (step ctx) post) :
    terms.session.Keeps (Run.expand substitute step) fun r => post r.1 :=
  keeps_state.bind fun state hstate =>
    keeps_expanding (hstep ⟨state, substitute state⟩ ⟨hstate, (hruns state · hstate)⟩)

theorem keeps_idle : terms.session.Keeps (Run.idle : ShellM W CommandOutcome) fun _ => True :=
  keeps_state.bind fun _ _ => keeps_pure trivial

end Workspace.Terms

section

variable {W : Type} [Workspace W] {sh : Shell W} {terms : Terms W} {α : Type}

namespace Workspace.Terms.Permits

/-- A stage may fail where it stands. -/
theorem stops (h : terms.Permits sh) (e : ShellError) (he : e.isFatal = false) {w : W}
    (hw : terms.holds w) : terms.fails e w :=
  (h.survives he).2 hw

theorem keeps_throw (h : terms.Permits sh) {e : ShellError} (he : e.isFatal = false)
    {post : α → Prop} :
    terms.session.Keeps (throw e : ShellM W α) post :=
  Invariant.keeps_throw fun _ hs => ⟨h.stops e he hs.1, hs.2⟩

/-- A step on the workspace whose failures are failures of the stage, if it has an end. -/
theorem keeps_onWorkspaceOr (h : terms.Permits sh) {fail : WorkspaceError → ShellError}
    (hfail : ∀ e, e ≠ .endless → (fail e).isFatal = false)
    (hendless : fail .endless = .workspace .endless) {step : WorkspaceM W α} {post : α → Prop}
    (hstep : terms.steady.Keeps step post) :
    terms.session.Keeps (ShellM.onWorkspaceOr fail step) post := by
  refine Terms.keeps_onWorkspaceOr (.of_cases (fun _ _ _ hw => hstep.ok hw) fun _ e w' hw herror => ?_)
  show terms.fails (fail e) w'
  obtain ⟨hw', hmay⟩ := hstep.error hw herror
  by_cases he : e = .endless
  · subst he
    rw [hendless]
    exact h.hangs (hmay rfl) hw'
  · exact (h.survives (hfail e he)).2 hw'

/-- Where failures are permitted, so are those of the workspace. -/
theorem keeps_onWorkspace (h : terms.Permits sh) {step : WorkspaceM W α} {post : α → Prop}
    (hstep : terms.steady.Keeps step post) :
    terms.session.Keeps (ShellM.onWorkspace step) post :=
  h.keeps_onWorkspaceOr (fun _ => isFatal_workspace) rfl hstep

/-! ## Words -/

/-- Expanding stops with errors that are permitted. -/
theorem mayStop (h : terms.Permits sh) : Expand.MayStop terms.expanding where
  unterminated _ he := h.stops _ rfl he
  bad _ _ he := h.stops _ rfl he

section

variable (h : terms.Permits sh) {ctx : ExpandContext W} (hctx : terms.Backs ctx)
include h hctx

theorem keeps_toText {w : Word} (hw : terms.Admits w.chars) :
    terms.expanding.Keeps (Expand.toText ctx w) fun _ => True :=
  Expand.keeps_toText h.mayStop (hctx.keeps_substitute hw)

omit hctx in
/-- Matching a field only looks at the workspace. -/
theorem keeps_field {cwd : String} (hcwd : terms.path cwd) (f : Field) :
    terms.expanding.Keeps (Expand.field cwd f) fun _ => True := by
  unfold Expand.field
  split
  · exact keeps_pure trivial
  · exact fun e he => ⟨(h.sustains_expand hcwd f.glyphs e.workspace he).1, trivial⟩

/-- A word on the terms expands without leaving them. -/
theorem keeps_word {w : Word} (hw : terms.Admits w.chars) :
    terms.expanding.Keeps (Expand.word ctx w) fun _ => True :=
  Expand.keeps_word h.mayStop (hctx.keeps_substitute hw) (h.keeps_field hctx.path)

theorem keeps_words {ws : List Word} (hws : ∀ w ∈ ws, terms.Admits w.chars) :
    terms.expanding.Keeps (Expand.words ctx ws) fun _ => True :=
  (Invariant.Keeps.mapM_silent fun w hw => h.keeps_word hctx (hws w hw)).before
    fun _ => keeps_pure trivial

end

/-! ## Commands -/

section

variable (h : terms.Permits sh)
include h

/-- A new working directory resolves from the old one. -/
theorem keeps_changeDirectory (args : List String) :
    terms.session.Keeps (Builtin.changeDirectory args : ShellM W CommandOutcome) fun _ => True := by
  unfold Builtin.changeDirectory
  split
  · exact (keeps_modifyState fun _ _ => h.root).before fun _ => keeps_pure trivial
  · next target =>
    apply keeps_state.bind
    intro state hstate
    cases hpath : resolvePath state.cwd target with
    | error e => exact keeps_pure trivial
    | ok path =>
      have hp := h.of_resolvePath hstate hpath
      have henter : terms.session.Keeps (do
          ShellM.modifyState (Builtin.enter · path)
          return CommandOutcome.code 0 : ShellM W CommandOutcome) fun _ => True :=
        (keeps_modifyState fun _ _ => hp).before fun _ => keeps_pure trivial
      dsimp only
      split
      · refine (h.keeps_onWorkspace (h.keeps_stat hp)).before fun stat => ?_
        split
        · exact keeps_pure trivial
        · split
          · exact keeps_pure trivial
          · exact henter
      · exact henter
  · exact keeps_pure trivial

/-- No builtin leaves the terms. -/
theorem keeps_builtin (delegated : String → Bool) (args : List String) (b : Builtin) :
    terms.session.Keeps (b.run delegated args : ShellM W CommandOutcome) fun _ => True := by
  have hupdating : ∀ {b : Builtin} {f : ShellState → CommandOutcome × ShellState},
      (∀ s, Builtin.Changes b args s (f s).2) →
      terms.session.Keeps (Builtin.updating f : ShellM W CommandOutcome) fun _ => True := by
    intro b f hf
    apply keeps_state.bind
    intro state hstate
    refine (keeps_modifyState fun _ _ => ?_).before fun _ => keeps_pure trivial
    -- a builtin leaves the directory, or goes to the root or to where an operand leads
    obtain hsame | hroot | ⟨target, hpath⟩ := (hf state).cwd
    · rwa [hsame]
    · rw [hroot]
      exact h.root
    · exact h.of_resolvePath hstate hpath
  have htest : ∀ args, terms.session.Keeps
      (Builtin.testArguments args : ShellM W CommandOutcome) fun _ => True := fun args =>
    keeps_state.bind fun _ hstate =>
      h.keeps_onWorkspace (h.keeps_condition hstate args)
  cases b with
  | cd => exact h.keeps_changeDirectory args
  | pwd => exact keeps_state.bind fun _ _ => keeps_pure trivial
  | exportNames => exact hupdating fun s => .exported args s
  | unsetNames => exact hupdating fun s => .forgotten args s
  | setParameters => exact hupdating (Builtin.changes_setPositional .setParameters args)
  | shiftParameters => exact hupdating (Builtin.changes_shiftPositional .shiftParameters args)
  | test => exact htest args
  | bracket =>
    unfold Builtin.run
    dsimp only
    split
    · exact htest _
    · exact keeps_pure trivial
  | _ => exact keeps_pure trivial

/-- Whatever a name stands for keeps them. -/
theorem keeps_named (values : List (String × String)) (name : String) (args : List String)
    (stdin : Bytes) :
    terms.session.Keeps (Run.named sh values name args stdin) fun _ => True := by
  apply keeps_state.bind
  intro state hstate
  dsimp only
  split
  · exact h.keeps_builtin _ args _
  · next hd =>
    exact (Terms.keeps_onWorkspaceOr (h.delegates hd _ hstate)).before fun _ => keeps_pure trivial
  · exact h.keeps_onWorkspace (h.keeps_utility hstate args _)
  · exact h.keeps_throw rfl

variable {substitute : Run.Substitute W} (hruns : terms.Runs substitute)
include hruns

/-- A simple command does so with its words. -/
theorem keeps_simple {words : List Word} (hwords : ∀ w ∈ words, terms.Admits w.chars)
    (stdin : Bytes) :
    terms.session.Keeps (Run.simple sh substitute words stdin) fun _ => True := by
  have hexpansion : terms.session.Keeps (Run.expansion substitute words) fun _ => True := by
    refine hruns.keeps_expand (fun _ => True) fun ctx hctx => ?_
    refine (Invariant.Keeps.mapM_silent fun a ha => ?_).before fun _ =>
      (h.keeps_words hctx fun w hw => ?_).before fun _ => keeps_pure trivial
    · obtain ⟨w, hw, hassignment⟩ := Run.exists_word_of_mem_splitAssignments ha
      have hvalue := (hwords w hw).mono (Word.chars_subset_of_assignment? hassignment)
      exact (h.keeps_toText hctx hvalue).before fun _ => keeps_pure trivial
    · exact hwords w (Run.splitAssignments_subset words hw)
  refine hexpansion.before fun ((values, argv), diagnostics) => ?_
  dsimp only
  split
  · refine (keeps_modifyState fun state hstate => ?_).before fun _ => keeps_pure trivial
    exact (ShellState.cwd_assignAll (s := state)).symm ▸ hstate
  · exact (h.keeps_named values _ _ stdin).before fun _ => keeps_pure trivial

/-! ## Redirections -/

/-- The target of a redirection is a path within the terms. -/
theorem keeps_target {w : Word} (hw : terms.Admits w.chars) :
    terms.session.Keeps (Run.target substitute w) fun r => terms.path r.1 := by
  apply (hruns.keeps_expand _ fun ctx hctx => h.keeps_word hctx hw).bind
  intro (fields, diagnostics) _
  dsimp only
  split
  · split
    · exact h.keeps_throw rfl
    · apply keeps_state.bind
      intro state hstate
      split
      · next hpath => exact keeps_pure (h.of_resolvePath hstate hpath)
      · next hpath => exact h.keeps_throw (isFatal_of_resolvePath hpath)
  · exact h.keeps_throw rfl

omit hruns in
/-- Reading an input asks for its path only. -/
theorem keeps_readInput {path : String} (hp : terms.path path) :
    terms.session.Keeps (Run.readInput path : ShellM W Bytes) fun _ => True := by
  unfold Run.readInput
  refine h.keeps_onWorkspaceOr (fun e he => ?_) ?_ (h.keeps_read hp)
  · split
    · rfl
    · rfl
    · exact isFatal_workspace he
  · rfl

/-- So do all redirections of input. -/
theorem keeps_input {redirections : List Redirection}
    (hredirections : ∀ r ∈ redirections, terms.Admits r.chars) (first : Bool) (stdin : Bytes) :
    terms.session.Keeps (Run.input substitute redirections first stdin) fun _ => True := by
  unfold Run.input
  split
  · next w hw =>
    split
    · have hmem := Run.mem_of_inputTarget? hw
      have hword := (hredirections _ hmem).mono (Redirection.chars_subset_of_target? rfl)
      exact (h.keeps_target hruns hword).bind fun r hr =>
        (h.keeps_readInput hr).before fun _ => keeps_pure trivial
    · exact keeps_pure trivial
  · exact keeps_pure trivial

/-- Output goes to files only where the terms let files be written. -/
theorem keeps_routing {r : Routing} (hr : ∀ path ∈ r.paths, terms.writes ∧ terms.path path)
    {redirections : List Redirection} (hredirections : ∀ r ∈ redirections, terms.Admits r.chars) :
    terms.session.Keeps (Run.routing substitute r redirections)
      fun r => ∀ path ∈ r.1.paths, terms.writes ∧ terms.path path := by
  fun_induction Run.routing substitute r redirections with
  | case1 => exact keeps_pure hr
  | case2 r w rest ih => exact ih hr (List.forall_mem_cons.1 hredirections).2
  | case3 r rest ih =>
    exact ih (fun path hpath => hr path (Routing.mem_paths_of_joinErrors hpath))
      (List.forall_mem_cons.1 hredirections).2
  | case4 r stream mode w rest ih =>
    rw [List.forall_mem_cons] at hredirections
    have hword := hredirections.1.mono (Redirection.chars_subset_of_target? rfl)
    have hwrites := hredirections.1 (Redirection.arrow_mem_output stream mode w)
    apply (h.keeps_target hruns hword).bind
    intro (target, diagnostics) htarget
    refine (ih target (fun path hpath => ?_) hredirections.2).bind
      fun _ hrouting => keeps_pure hrouting
    obtain rfl | hbefore := Routing.mem_paths_of_toFile hpath
    · exact ⟨hwrites, htarget⟩
    · exact hr path hbefore

omit hruns in
/-- Writing asks for the path, and for leave to write. -/
theorem keeps_writeFile {f : FileOutput} (hwrites : terms.writes) (hp : terms.path f.path) :
    terms.steady.Keeps (Delivery.writeFile f : WorkspaceM W Unit) fun _ => True := by
  have hwrite : ∀ data, terms.steady.Keeps (Workspace.write f.path data : WorkspaceM W Unit)
      fun _ => True :=
    fun data => (Workspace.write_returns f.path data).keeps (h.write data hwrites hp)
  unfold Delivery.writeFile
  split
  · exact hwrite _
  · apply (h.keeps_read hp).observing.bind
    rintro result ⟨-, hendless⟩
    split
    · exact hwrite _
    · exact hwrite _
    · exact Invariant.keeps_throw fun _ hw => ⟨hw, fun he => hendless (congrArg _ he)⟩

omit hruns in
/-- So does the delivery of an outcome. -/
theorem keeps_writeFiles {d : Delivery}
    (hd : ∀ path ∈ d.paths, terms.writes ∧ terms.path path) :
    terms.steady.Keeps (d.writeFiles : WorkspaceM W Unit) fun _ => True := by
  rw [Delivery.paths, List.forall_mem_map] at hd
  unfold Delivery.writeFiles
  generalize d.files = files at hd
  induction files with
  | nil => exact keeps_pure trivial
  | cons f rest ih =>
    rw [List.forall_mem_cons] at hd
    exact (h.keeps_writeFile hd.1.1 hd.1.2).before fun _ => ih hd.2

/-- A command with redirections keeps the terms if its body does. -/
theorem keeps_redirected {redirections : List Redirection}
    (hredirections : ∀ r ∈ redirections, terms.Admits r.chars) (first : Bool) (stdin : Bytes)
    {body : Bytes → ShellM W CommandOutcome}
    (hbody : ∀ stdin, terms.session.Keeps (body stdin) fun _ => True) :
    terms.session.Keeps (Run.redirected substitute redirections first stdin body)
      fun _ => True := by
  refine (h.keeps_input hruns hredirections first stdin).before fun (stdin, inputDiagnostics) => ?_
  apply (h.keeps_routing hruns (List.forall_mem_nil _) hredirections).bind
  intro (r, outputDiagnostics) hr
  refine (hbody stdin).before fun outcome => ?_
  refine (h.keeps_onWorkspace (h.keeps_writeFiles fun path hpath => ?_)).before
    fun _ => keeps_pure trivial
  exact hr path (Delivery.mem_paths_of_ofOutcome hpath)

/-! ## Scripts -/

omit hruns in
/-- What follows an attempt goes on with a failure that is not fatal, and fails with one that is. -/
theorem keeps_attempt {β : Type} {step : ShellM W α} {f : Except ShellError α → ShellM W β}
    (hstep : terms.session.Keeps step fun _ => True)
    (hok : ∀ a, terms.session.Keeps (f (.ok a)) fun _ => True)
    (hfatal : ∀ e, e.isFatal = true → f (.error e) = throw e)
    (hstage : ∀ e, e.isFatal = false → terms.session.Keeps (f (.error e)) fun _ => True) :
    terms.session.Keeps (ShellM.attempt step >>= f) fun _ => True := by
  intro s hs
  rcases hfirst : step s with ⟨e | a, mid⟩
  · have hbind : (ShellM.attempt step >>= f) s = f (.error e) mid := by
      rw [bind_apply_ok (show ShellM.attempt step s = (.ok (.error e), mid) by
        rw [ShellM.attempt, hfirst])]
    rw [hbind]
    have hfails := hstep.error hs hfirst
    -- only a fatal failure may leave what no success leaves, and it is passed on
    cases he : e.isFatal with
    | true =>
      rw [hfatal e he]
      exact hfails
    | false => exact hstage e he mid ⟨(h.survives he).1 hfails.1, hfails.2⟩
  · have hbind : (ShellM.attempt step >>= f) s = f (.ok a) mid := by
      rw [bind_apply_ok (show ShellM.attempt step s = (.ok (.ok a), mid) by
        rw [ShellM.attempt, hfirst])]
    rw [hbind]
    exact hok a mid (hstep.ok hs hfirst).1

end

mutual

/-- A command keeps them if they admit all characters in it. -/
theorem keeps_command {substitute : Run.Substitute W} (h : terms.Permits sh)
    (hruns : terms.Runs substitute) (first : Bool) (stdin : Bytes) :
    ∀ c : Command, terms.Admits (c.commands.flatMap Command.chars) →
      terms.session.Keeps (Run.command sh substitute first stdin c) fun _ => True
  | .simple words redirections, hc => by
    have hown := hc.flatMap (List.mem_singleton_self (Command.simple words redirections))
    exact h.keeps_redirected hruns hown.redirections first stdin (h.keeps_simple hruns hown.words)
  | .group body redirections, hc => by
    have hown := hc.flatMap (List.mem_append_right _ (List.mem_singleton_self _))
    rw [Command.commands, List.flatMap_append, admits_append] at hc
    exact h.keeps_redirected hruns hown.redirections first stdin fun stdin =>
      keeps_isolated (keeps_script h hruns stdin body hc.1)

/-- So does a pipeline. -/
theorem keeps_pipeline {substitute : Run.Substitute W} (h : terms.Permits sh)
    (hruns : terms.Runs substitute) (first : Bool) (stdin : Bytes) :
    ∀ stages : List Command, terms.Admits ((Pipeline.commands stages).flatMap Command.chars) →
      terms.session.Keeps (Run.pipeline sh substitute first stdin stages) fun _ => True
  | [], _ => keeps_pure trivial
  | stage :: rest, hstages => by
    rw [Pipeline.commands, List.flatMap_append, admits_append] at hstages
    refine h.keeps_attempt (keeps_command h hruns first stdin stage hstages.1) (fun outcome => ?_)
      (fun e he => ?_) fun e he => ?_
    · exact (keeps_pipeline h hruns false outcome.stdout rest hstages.2).before
        fun _ => keeps_pure trivial
    · simp only [he, if_true]
      rfl
    · simp only [he]
      exact keeps_pure trivial

/-- So do pipelines that are connected to it. -/
theorem keeps_guarded {substitute : Run.Substitute W} (h : terms.Permits sh)
    (hruns : terms.Runs substitute) :
    ∀ steps : List (Connector × List Command),
      terms.Admits ((Tail.commands steps).flatMap Command.chars) →
      terms.session.Keeps (Run.guarded sh substitute steps) fun _ => True
  | [], _ => keeps_idle
  | (connector, stages) :: rest, hsteps => by
    rw [Tail.commands, List.flatMap_append, admits_append] at hsteps
    apply keeps_state.bind
    intro state _
    split
    · exact (keeps_recorded (keeps_pipeline h hruns true [] stages hsteps.1)).before fun _ =>
        (keeps_guarded h hruns rest hsteps.2).before fun _ => keeps_pure trivial
    · exact keeps_guarded h hruns rest hsteps.2

theorem keeps_sequence {substitute : Run.Substitute W} (h : terms.Permits sh)
    (hruns : terms.Runs substitute) (stdin : Bytes) :
    ∀ s : Sequence, terms.Admits (s.commands.flatMap Command.chars) →
      terms.session.Keeps (Run.sequence sh substitute stdin s) fun _ => True
  | .chain head tail, hs => by
    rw [Sequence.commands, List.flatMap_append, admits_append] at hs
    exact (keeps_recorded (keeps_pipeline h hruns true stdin head hs.1)).before fun _ =>
      (keeps_guarded h hruns tail hs.2).before fun _ => keeps_pure trivial

/-- And so does a script. -/
theorem keeps_script {substitute : Run.Substitute W} (h : terms.Permits sh)
    (hruns : terms.Runs substitute) (stdin : Bytes) :
    ∀ ss : List Sequence, terms.Admits (Script.chars ss) →
      terms.session.Keeps (Run.script sh substitute stdin ss) fun _ => True
  | [], _ => keeps_idle
  | first :: rest, hss => by
    rw [Script.chars, Script.commands, List.flatMap_append, admits_append] at hss
    exact (keeps_sequence h hruns stdin first hss.1).before fun _ =>
      (keeps_script h hruns [] rest hss.2).before fun _ => keeps_pure trivial

end

/-- By induction on the substitutions that may still be nested. -/
theorem runs_substitute (h : terms.Permits sh) (depth : Nat) : terms.Runs (sh.substitute depth) := by
  induction depth with
  | zero => exact fun state text _ _ => Invariant.keeps_throw fun _ => h.stops _ rfl
  | succ depth ih =>
    intro state text hstate htext
    unfold Shell.substitute
    split
    · exact Invariant.keeps_throw fun _ => h.stops _ rfl
    · next script hparse =>
      have hscript := h.keeps_script ih [] script (htext.mono (Script.chars_subset_of_parse hparse))
      intro e he
      dsimp only
      split
      · next hrun => exact (hscript.error ⟨he, hstate⟩ hrun).1
      · next hrun => exact ⟨(hscript.ok ⟨he, hstate⟩ hrun).1.1, trivial⟩

/-- A script whose characters the terms admit keeps them. -/
theorem keeps_runScript (h : terms.Permits sh) {script : Script}
    (hscript : terms.Admits (Script.chars script)) :
    terms.session.Keeps (sh.runScript script) fun _ => True :=
  h.keeps_script (h.runs_substitute _) [] script hscript

/-- Where a failure leaves what a success leaves, the same holds after every text, be it a script or
not. -/
theorem holds_after_execute (h : terms.Permits sh)
    (hfails : ∀ e {w}, terms.fails e w ↔ terms.holds w) {text : String}
    (htext : terms.Admits text.toList) {s : Session W} (hs : terms.session.holds s) :
    terms.holds (sh.execute text s).2.workspace := by
  have hkeeps : terms.session.Keeps (sh.execute text) fun _ => True := by
    unfold Shell.execute
    split
    · exact Invariant.keeps_throw fun _ hs => ⟨(hfails _).2 hs.1, hs.2⟩
    · next hscript =>
      exact (h.keeps_runScript (htext.mono (Script.chars_subset_of_parse hscript))).before
        fun _ => keeps_pure trivial
  rcases hrun : sh.execute text s with ⟨e | result, s'⟩
  · exact (hfails e).1 (hkeeps.error hs hrun).1
  · exact (hkeeps.ok hs hrun).1.1

end Workspace.Terms.Permits

end

/-! ## Laws -/

/-- The law on sessions. -/
abbrev Law.session {W : Type} (law : Law W ShellError) : Law (Session W) ShellError :=
  law.comap Session.workspace

section

variable {W : Type} [Workspace W]

/-- One call that does not write or delete. -/
inductive Workspace.Peeks : W → W → Prop
  | read (path : String) (w : W) : Peeks w (Workspace.read path w).2
  | stat (path : String) (w : W) : Peeks w (Workspace.stat path w).2
  | list (path : String) (w : W) : Peeks w (Workspace.list path w).2

/-- The law permits what a shell does to a workspace: looking, writing, and what its delegate does.
A stage whose failure is not fatal leaves what a success may lead to. Where a search may not
terminate, a script may have no end. -/
structure Law.Permits (law : Law W ShellError) (sh : Shell W) : Prop where
  peeks : ∀ {w w'}, Workspace.Peeks w w' → law.moves w w'
  writes : ∀ path data w, law.moves w (Workspace.write path data w).2
  delegates : ∀ {d}, sh.delegate? = some d → ∀ {request w output w'},
    d.run request w = (.ok output, w') → law.moves w w'
  refuses : ∀ {d}, sh.delegate? = some d → ∀ {request w e w'},
    d.run request w = (.error e, w') → law.fails w (.ofDelegate e) w'
  survives : ∀ {e : ShellError}, e.isFatal = false → ∀ {w w'}, law.fails w e w' ↔ law.moves w w'
  hangs : ∀ {w v w'}, law.moves w v → Workspace.SearchesForever v → law.moves w w' →
    law.fails w (.workspace .endless) w'

variable {law : Law W ShellError} {sh : Shell W}

/-- Wherever a law lets a state come to, calls with any paths keep it there. -/
abbrev Law.terms (law : Law W ShellError) (w : W) : Workspace.Terms W where
  holds := law.moves w
  fails := law.fails w
  path _ := True
  name _ := True
  writes := True
  endless := ∃ v, law.moves w v ∧ Workspace.SearchesForever v

/-- A law of calls that a shell is permitted makes terms that it keeps. -/
theorem Law.Permits.terms (h : law.Permits sh) (w : W) : (law.terms w).Permits sh where
  root := trivial
  resolve _ _ := trivial
  enter _ _ := trivial
  leave _ := trivial
  segment _ _ _ _ := trivial
  read _ := Invariant.keeps_steady_iff.2 fun w' hw => law.trans hw (h.peeks (.read _ w'))
  stat _ := Invariant.keeps_steady_iff.2 fun w' hw => law.trans hw (h.peeks (.stat _ w'))
  list _ := (Invariant.keeps_steady_iff.2 fun w' hw => law.trans hw (h.peeks (.list _ w'))).imp
    fun _ _ _ _ => trivial
  search hw hforever := ⟨_, hw, hforever⟩
  write data _ _ := Invariant.keeps_steady_iff.2 fun w' hw => law.trans hw (h.writes _ data w')
  delegates hd _ _ := .of_cases
    (fun _ _ _ hw hrun => ⟨law.trans hw (h.delegates hd hrun), trivial⟩)
    fun _ _ _ hw hrun => law.fails_of_moves hw (h.refuses hd hrun)
  survives he _ := h.survives he
  hangs := fun ⟨_, hmoves, hforever⟩ _ hw => h.hangs hmoves hforever hw

/-- A script obeys a law that permits what the shell does. -/
theorem Law.Permits.runScript_obeys (h : law.Permits sh) (script : Script) :
    law.session.Obeys (sh.runScript script) := by
  refine Law.obeys_iff_keeps.2 fun s => ?_
  have hkeeps : (law.terms s.workspace).session.Keeps (sh.runScript script) fun _ => True :=
    (h.terms s.workspace).keeps_runScript fun _ => trivial
  exact .of_cases (fun _ _ _ hs hrun => (hkeeps.ok ⟨hs, trivial⟩ hrun).imp_left And.left)
    fun _ _ _ hs hrun => (hkeeps.error ⟨hs, trivial⟩ hrun).1

end

end Sandshell
