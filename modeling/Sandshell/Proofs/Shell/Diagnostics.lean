import Sandshell.Proofs.Shell.Delivery
import Sandshell.Proofs.Shell.Simple
import Sandshell.Workspace.Tree

/-!
# What substitutions say

Scripts of substitutions may write to their error streams while a command expands its assignments,
words and targets. Here all that they write is added up as the steps of the command go, no matter
what the interpreter does with it. The diagnostics that an expansion leaves are this sum; a command
that succeeds delivers it before its own errors, and a command that fails drops it.
-/

namespace Sandshell

/-! ## Logs -/

/-- What a step says, by the state in which it begins. -/
abbrev Log (σ : Type) := σ → Bytes

namespace Log

variable {σ ε α β : Type}

/-- Says nothing. -/
def silent : Log σ :=
  fun _ => []

/-- The log of a step, and after it the log of what only runs if the step succeeds. -/
def andThen (log : Log σ) (step : ExceptT ε (StateM σ) α) (next : α → Log σ) : Log σ :=
  fun s => log s ++
    match step s with
    | (.ok a, s') => next a s'
    | (.error _, _) => []

/-- The logs of steps on the members of a list, up to the first one that fails. -/
def each (log : α → Log σ) (step : α → ExceptT ε (StateM σ) β) : List α → Log σ
  | [] => silent
  | a :: rest => andThen (log a) (step a) fun _ => each log step rest

variable {log : Log σ} {step : ExceptT ε (StateM σ) α} {next : α → Log σ} {s s' : σ}

theorem andThen_ok {a : α} (h : step s = (.ok a, s')) :
    andThen log step next s = log s ++ next a s' := by
  rw [andThen, h]

/-- After a failure nothing more is said. -/
theorem andThen_error {e : ε} (h : step s = (.error e, s')) : andThen log step next s = log s := by
  rw [andThen, h, List.append_nil]

/-- A silent step adds nothing to what has been said. -/
theorem andThen_silent (log : Log σ) (step : ExceptT ε (StateM σ) α) :
    andThen log step (fun _ => silent) = log := by
  funext s
  rcases h : step s with ⟨e | a, s'⟩
  · exact andThen_error h
  · exact (andThen_ok h).trans (List.append_nil _)

end Log

/-! ## Logs of expansions -/

/-- What the script of a substitution writes to its error stream, if it runs to its end. -/
def Shell.said {W : Type} [Workspace W] (sh : Shell W) :
    (depth : Nat) → ShellState → String → Log (Expanding W)
  | 0, _, _ => .silent
  | depth + 1, state, text =>
    match Script.parse text with
    | .error _ => .silent
    | .ok script => fun e =>
      match (Run.script sh (sh.substitute depth) [] script ⟨e.workspace, state⟩).1 with
      | .ok outcome => outcome.stderr
      | .error _ => []

namespace Expand

section

variable {W : Type} (ctx : ExpandContext W) (said : String → Log (Expanding W))

mutual

/-- What the substitutions in a piece say. -/
def pieceLog : Piece → Log (Expanding W)
  | .parameterOr p default =>
    if (p.value? ctx.state).getD "" ≠ "" then .silent else piecesLog default
  | .substitution script => said script
  | _ => .silent

/-- What the substitutions in pieces say. -/
def piecesLog : List Piece → Log (Expanding W)
  | [] => .silent
  | p :: rest => .andThen (pieceLog p) (piece ctx p) fun _ => piecesLog rest

end

/-- What the substitutions in a part of a word say. -/
def partLog (p : WordPart) : Log (Expanding W) :=
  if p.quote = .single then .silent else piecesLog ctx said (Piece.scan p.text.toList)

/-- What the substitutions in a word say. -/
def wordLog (w : Word) : Log (Expanding W) :=
  .each (partLog ctx said) (part ctx) w.parts

end

end Expand

namespace Run

variable {W : Type} [Workspace W]

/-! ## Logs of commands -/

section

variable (substitute : Substitute W) (said : ShellState → String → Log (Expanding W))

/-- What the substitutions in a simple command say: first those in its assignments, then those in
its words. -/
def simpleLog (words : List Word) : Log (Session W) := fun s =>
  let ctx : ExpandContext W := ⟨s.state, substitute s.state⟩
  let log := Expand.wordLog ctx (said s.state)
  let value (a : String × Word) : ExpandM W (String × String) :=
    return (a.1, ← Expand.toText ctx a.2)
  Log.andThen (.each (fun a => log a.2) value (splitAssignments words).1)
    ((splitAssignments words).1.mapM value)
    (fun _ => .each log (Expand.word ctx) (splitAssignments words).2) ⟨s.workspace, []⟩

/-- What the substitutions in the target of a redirection say. -/
def targetLog (w : Word) : Log (Session W) := fun s =>
  Expand.wordLog ⟨s.state, substitute s.state⟩ (said s.state) w ⟨s.workspace, []⟩

/-- What the substitutions in the target of the input say, where it is opened. -/
def inputLog (redirections : List Redirection) (first : Bool) : Log (Session W) :=
  match inputTarget? redirections with
  | some w => if first then targetLog substitute said w else .silent
  | none => .silent

/-- What the substitutions in the targets of output say. -/
def routingLog : List Redirection → Log (Session W)
  | [] => .silent
  | .output _ _ w :: rest =>
    .andThen (targetLog substitute said w) (target substitute w) fun _ => routingLog rest
  | _ :: rest => routingLog rest

/-- What the substitutions of a command say once its redirections are open. The body of a group runs
its own commands; it is no part of this. -/
def bodyLog : Command → Log (Session W)
  | .simple words _ => simpleLog substitute said words
  | .group _ _ => .silent

/-- What the substitutions of a command say, in the order in which they run: those in the targets of
its redirections, then those in its assignments and words. -/
def commandLog (c : Command) (first : Bool) (stdin : Bytes) : Log (Session W) :=
  .andThen (inputLog substitute said c.redirections first)
    (input substitute c.redirections first stdin) fun _ =>
      .andThen (routingLog substitute said c.redirections) (routing substitute {} c.redirections)
        fun _ => bodyLog substitute said c

end

end Run

/-! ## Diagnostics are what is said -/

namespace Expand

open Log (andThen each)

section

variable {W α β : Type}

/-- The step leaves the diagnostics that it finds, and what it says after them. -/
def Says (step : ExpandM W α) (log : Log (Expanding W)) : Prop :=
  ∀ e, (step e).2.diagnostics = e.diagnostics ++ log e

/-- A step that keeps the log says nothing. -/
theorem says_of_silent {step : ExpandM W α} (h : silent.Obeys step) : Says step .silent := by
  intro e
  rw [Log.silent, List.append_nil]
  exact Law.obeys_along_iff.1 h e

theorem says_pure (a : α) : Says (pure a : ExpandM W α) .silent :=
  says_of_silent (Law.obeys_pure a)

theorem says_throw (e : ShellError) : Says (throw e : ExpandM W α) .silent :=
  says_of_silent (Law.obeys_throw fun _ => rfl)

variable {step : ExpandM W α} {log : Log (Expanding W)}

/-- Two steps say what the first one does, and then the second one on its result. -/
theorem Says.bind {f : α → ExpandM W β} {next : α → Log (Expanding W)} (h : Says step log)
    (hf : ∀ a, Says (f a) (next a)) : Says (step >>= f) (andThen log step next) := by
  intro e
  have hfirst := h e
  -- a step that fails has spoken, too; only what would have come after it is silent
  rcases hstep : step e with ⟨error | a, e'⟩
  · rw [bind_apply_error hstep, Log.andThen_error hstep]
    rwa [hstep] at hfirst
  · rw [hstep] at hfirst
    rw [bind_apply_ok hstep, Log.andThen_ok hstep, hf a e', hfirst, List.append_assoc]

/-- What comes after a step and says nothing does not matter. -/
theorem Says.bind_silent {f : α → ExpandM W β} (h : Says step log)
    (hf : ∀ a, Says (f a) .silent) : Says (step >>= f) log := by
  rw [← Log.andThen_silent log step]
  exact h.bind hf

/-- Steps for the members of a list speak one after the other. -/
theorem says_mapM {f : α → ExpandM W β} {log : α → Log (Expanding W)}
    (hf : ∀ a, Says (f a) (log a)) (l : List α) : Says (l.mapM f) (each log f l) := by
  induction l with
  | nil => exact says_pure []
  | cons a rest ih =>
    rw [List.mapM_cons]
    exact (hf a).bind fun b => ih.bind_silent fun bs => says_pure (b :: bs)

end

variable {W : Type} {ctx : ExpandContext W} {said : String → Log (Expanding W)}

mutual

/-- A piece says what its substitutions do, a default only if it is used. -/
theorem says_piece (hsub : ∀ text, Says (ctx.substitute text) (said text)) :
    ∀ p : Piece, Says (piece ctx p) (pieceLog ctx said p)
  | .char _ => says_pure _
  | .parameter _ => says_pure _
  | .parameterOr p default => by
    rw [piece, pieceLog]
    split
    · exact says_pure _
    · exact (says_pieces hsub default).bind_silent fun _ => says_pure _
  | .substitution script => (hsub script).bind_silent fun _ => says_pure _
  | .unclosedSubstitution => says_throw _
  | .badSubstitution _ => says_throw _

/-- Pieces speak from left to right. -/
theorem says_pieces (hsub : ∀ text, Says (ctx.substitute text) (said text)) :
    ∀ ps : List Piece, Says (pieces ctx ps) (piecesLog ctx said ps)
  | [] => says_pure _
  | p :: rest =>
    (says_piece hsub p).bind fun _ => (says_pieces hsub rest).bind_silent fun _ => says_pure _

end

variable (hsub : ∀ text, Says (ctx.substitute text) (said text))
include hsub

/-- So do the parts of a word. -/
theorem says_part (p : WordPart) : Says (part ctx p) (partLog ctx said p) := by
  rw [part, partLog]
  cases p.quote with
  | single => exact says_pure _
  | double => exact (says_pieces hsub _).bind_silent fun _ => says_pure _
  | none => exact says_pieces hsub _

theorem says_fragments (w : Word) : Says (fragments ctx w) (wordLog ctx said w) :=
  (says_mapM (says_part hsub) w.parts).bind_silent fun _ => says_pure _

theorem says_toText (w : Word) : Says (toText ctx w) (wordLog ctx said w) :=
  (says_fragments hsub w).bind_silent fun _ => says_pure _

/-- Matching fields against the workspace says nothing. -/
theorem says_word [Workspace W] (w : Word) : Says (word ctx w) (wordLog ctx said w) :=
  (says_fragments hsub w).bind_silent fun _ =>
    (says_of_silent (Law.Obeys.mapM (silent_field _) _)).bind_silent fun _ => says_pure _

/-- And so do words. -/
theorem says_words [Workspace W] (ws : List Word) :
    Says (words ctx ws) (each (wordLog ctx said) (word ctx) ws) :=
  (says_mapM (says_word hsub) ws).bind_silent fun _ => says_pure _

end Expand

/-- A substitution says what its script writes to its error stream. -/
theorem Shell.says_substitute {W : Type} [Workspace W] (sh : Shell W) (depth : Nat)
    (state : ShellState) (text : String) :
    Expand.Says (sh.substitute depth state text) (sh.said depth state text) := by
  cases depth with
  | zero => exact Expand.says_throw _
  | succ depth =>
    rw [substitute, said]
    cases Script.parse text with
    | error e => exact Expand.says_throw _
    | ok script =>
      intro e
      dsimp only
      rcases Run.script sh (sh.substitute depth) [] script ⟨e.workspace, state⟩ with
        ⟨error | outcome, s⟩
      · exact (List.append_nil _).symm
      · rfl

namespace Run

open Log (andThen each)

variable {W : Type} [Workspace W] {substitute : Substitute W}
variable {said : ShellState → String → Log (Expanding W)} {s s' : Session W} {diagnostics : Bytes}

omit [Workspace W] in
/-- What expanding collects is what it says on an empty log. -/
theorem diagnostics_of_expand {α : Type} {step : ExpandContext W → ExpandM W α} {a : α}
    {log : Log (Expanding W)} (hstep : Expand.Says (step ⟨s.state, substitute s.state⟩) log)
    (h : expand substitute step s = (.ok (a, diagnostics), s')) :
    diagnostics = log ⟨s.workspace, []⟩ := by
  rw [expand, bind_apply_ok (show ShellM.state s = (.ok s.state, s) from rfl),
    ShellM.expanding] at h
  have hsays := hstep ⟨s.workspace, []⟩
  split at h
  · next a' e hok =>
    rw [hok] at hsays
    cases h
    exact hsays
  · cases h

section

variable (hsub : ∀ state text, Expand.Says (substitute state text) (said state text))
include hsub

/-- A simple command has the diagnostics of its words. -/
theorem diagnostics_of_simple {words : List Word} {values : List (String × String)}
    {argv : List String}
    (h : expansion substitute words s = (.ok ((values, argv), diagnostics), s')) :
    diagnostics = simpleLog substitute said words s := by
  -- assignments and words are expanded in one go, in the state before the command
  let ctx : ExpandContext W := ⟨s.state, substitute s.state⟩
  have hctx : ∀ text, Expand.Says (ctx.substitute text) (said s.state text) := hsub s.state
  have hvalues := Expand.says_mapM
    (fun a : String × Word => (Expand.says_toText hctx a.2).bind_silent fun value =>
      Expand.says_pure (a.1, value)) (splitAssignments words).1
  have hwords := Expand.says_words hctx (splitAssignments words).2
  exact diagnostics_of_expand
    (hvalues.bind fun _ => hwords.bind_silent fun _ => Expand.says_pure _) h

/-- A target has those of its word. -/
theorem diagnostics_of_target {w : Word} {path : String}
    (h : target substitute w s = (.ok (path, diagnostics), s')) :
    diagnostics = targetLog substitute said w s := by
  obtain ⟨operand, hexpand, -⟩ := of_target_eq_ok h
  exact diagnostics_of_expand (Expand.says_word (hsub s.state) w) hexpand

/-- An input has those of the redirections that lead to it. -/
theorem diagnostics_of_input {redirections : List Redirection} {first : Bool} {stdin : Bytes}
    {data : Bytes}
    (h : input substitute redirections first stdin s = (.ok (data, diagnostics), s')) :
    diagnostics = inputLog substitute said redirections first s := by
  rw [input] at h
  rw [inputLog]
  cases hinput : inputTarget? redirections with
  | none =>
    rw [hinput] at h
    cases h
    rfl
  | some w =>
    rw [hinput] at h
    cases first with
    | false =>
      cases h
      rfl
    | true =>
      obtain ⟨⟨path, diagnostics'⟩, s₁, htarget, hrest⟩ := exists_of_bind_apply_ok h
      obtain ⟨data', s₂, -, hread⟩ := exists_of_bind_apply_ok hrest
      cases hread
      exact diagnostics_of_target hsub htarget

/-- Redirections of output have theirs from left to right. -/
theorem diagnostics_of_routing {redirections : List Redirection} {r r' : Routing}
    (h : routing substitute r redirections s = (.ok (r', diagnostics), s')) :
    diagnostics = routingLog substitute said redirections s := by
  induction redirections generalizing r diagnostics s with
  | nil =>
    cases h
    rfl
  | cons redirection rest ih =>
    cases redirection with
    | input w => exact ih h
    | errorsToOutput => exact ih h
    | output stream mode w =>
      obtain ⟨⟨path, mine⟩, s₁, htarget, hrest⟩ := exists_of_bind_apply_ok h
      obtain ⟨⟨r'', more⟩, s₂, hmore, hjoined⟩ := exists_of_bind_apply_ok hrest
      cases hjoined
      rw [routingLog, Log.andThen_ok htarget, ← diagnostics_of_target hsub htarget, ← ih hmore]

end

end Run

/-! ## Stages -/

/-- Diagnostics that come first stand first. -/
theorem CommandOutcome.withDiagnostics_append (first second : Bytes) (outcome : CommandOutcome) :
    outcome.withDiagnostics (first ++ second)
      = (outcome.withDiagnostics second).withDiagnostics first := by
  simp [withDiagnostics]

namespace Run

variable {W : Type} [Workspace W] {sh : Shell W} {substitute : Substitute W}
variable {said : ShellState → String → Log (Expanding W)}
variable {c : Command} {first : Bool} {stdin : Bytes} {s s' : Session W}

/-- What a command gives by itself, once its redirections are open: nothing where it assigns, what
the command that it names gives, or what the script of a group gives. -/
inductive Gives (sh : Shell W) (substitute : Substitute W) (stdin : Bytes) :
    Command → Session W → CommandOutcome → Session W → Prop
  | assigns {words : List Word} {redirections : List Redirection}
    {values : List (String × String)} {diagnostics : Bytes} {s s' : Session W}
    (h : expansion substitute words s = (.ok ((values, []), diagnostics), s')) :
    Gives sh substitute stdin (.simple words redirections) s {}
      { s' with state := s'.state.assignAll values }
  | runs {words : List Word} {redirections : List Redirection} {values : List (String × String)}
    {name : String} {args : List String} {diagnostics : Bytes} {s s₁ s' : Session W}
    {own : CommandOutcome}
    (h : expansion substitute words s = (.ok ((values, name :: args), diagnostics), s₁))
    (hnamed : named sh values name args stdin s₁ = (.ok own, s')) :
    Gives sh substitute stdin (.simple words redirections) s own s'
  | groups {body : Script} {redirections : List Redirection} {s s' : Session W}
    {own : CommandOutcome}
    (h : ShellM.isolated (script sh substitute stdin body) s = (.ok own, s')) :
    Gives sh substitute stdin (.group body redirections) s own s'

/-- The command has opened its redirections and run, and its output has been delivered. Where its
errors go, all that its substitutions said comes before what it gave itself, in one piece. -/
inductive Delivers (sh : Shell W) (substitute : Substitute W)
    (said : ShellState → String → Log (Expanding W)) (c : Command) (first : Bool) (stdin : Bytes)
    (s : Session W) : CommandOutcome → Session W → Prop
  | intro {data inputDiagnostics outputDiagnostics : Bytes} {r : Routing}
    {own : CommandOutcome} {delivery : Delivery} {s₁ s₂ s₃ s' : Session W}
    (hinput : input substitute c.redirections first stdin s
      = (.ok (data, inputDiagnostics), s₁))
    (hrouting : routing substitute {} c.redirections s₁ = (.ok (r, outputDiagnostics), s₂))
    (hgives : Gives sh substitute data c s₂ own s₃)
    (hdelivery : delivery = .ofOutcome r
      (own.withDiagnostics (commandLog substitute said c first stdin s)))
    (hreceived : ∃ before, delivery.receivedAt r.err
      = before ++ (commandLog substitute said c first stdin s ++ own.stderr))
    (hwrites : ShellM.onWorkspace delivery.writeFiles s₃ = (.ok (), s')) :
    Delivers sh substitute said c first stdin s
      ⟨own.exitCode, delivery.stdout, delivery.stderr⟩ s'

/-- A command that succeeds has read its input, opened its targets, run and been delivered. -/
theorem exists_of_redirected_ok {redirections : List Redirection}
    {body : Bytes → ShellM W CommandOutcome} {outcome : CommandOutcome}
    (h : redirected substitute redirections first stdin body s = (.ok outcome, s')) :
    ∃ data inputDiagnostics s₁ r outputDiagnostics s₂ result s₃ delivery,
      input substitute redirections first stdin s = (.ok (data, inputDiagnostics), s₁)
        ∧ routing substitute {} redirections s₁ = (.ok (r, outputDiagnostics), s₂)
        ∧ body data s₂ = (.ok result, s₃)
        ∧ delivery = Delivery.ofOutcome r
          (result.withDiagnostics (inputDiagnostics ++ outputDiagnostics))
        ∧ ShellM.onWorkspace delivery.writeFiles s₃ = (.ok (), s')
        ∧ outcome = ⟨result.exitCode, delivery.stdout, delivery.stderr⟩ := by
  obtain ⟨⟨data, d₁⟩, s₁, hinput, h⟩ := exists_of_bind_apply_ok h
  obtain ⟨⟨r, d₂⟩, s₂, hrouting, h⟩ := exists_of_bind_apply_ok h
  obtain ⟨result, s₃, hbody, h⟩ := exists_of_bind_apply_ok h
  obtain ⟨⟨⟩, s₄, hwrites, h⟩ := exists_of_bind_apply_ok h
  cases h
  exact ⟨data, d₁, s₁, r, d₂, s₂, result, s₃, _, hinput, hrouting, hbody, rfl, hwrites, rfl⟩

section

variable (hsub : ∀ state text, Expand.Says (substitute state text) (said state text))
include hsub

/-- What a simple command gives comes after what its substitutions said. -/
theorem gives_of_simple {words : List Word} (redirections : List Redirection)
    {result : CommandOutcome} (h : simple sh substitute words stdin s = (.ok result, s')) :
    ∃ own, Gives sh substitute stdin (.simple words redirections) s own s'
      ∧ result = own.withDiagnostics (simpleLog substitute said words s) := by
  rw [simple_apply] at h
  rcases hexpansion : expansion substitute words s with
    ⟨e | ⟨⟨values, _ | ⟨name, args⟩⟩, diagnostics⟩, s₁⟩
  · rw [hexpansion] at h
    cases h
  · rw [hexpansion] at h
    cases h
    refine ⟨{}, .assigns hexpansion, ?_⟩
    rw [← diagnostics_of_simple hsub hexpansion]
    simp [CommandOutcome.withDiagnostics]
  · rw [hexpansion] at h
    dsimp only at h
    rcases hnamed : named sh values name args stdin s₁ with ⟨e | own, s₂⟩
    · rw [hnamed] at h
      cases h
    · rw [hnamed] at h
      cases h
      exact ⟨own, .runs hexpansion hnamed, by rw [← diagnostics_of_simple hsub hexpansion]⟩

/-- Its log has input, targets and body in this order. -/
theorem commandLog_of_opened {data inputDiagnostics outputDiagnostics : Bytes} {r : Routing}
    {s₁ s₂ : Session W}
    (hinput : input substitute c.redirections first stdin s = (.ok (data, inputDiagnostics), s₁))
    (hrouting : routing substitute {} c.redirections s₁ = (.ok (r, outputDiagnostics), s₂)) :
    commandLog substitute said c first stdin s
      = inputDiagnostics ++ outputDiagnostics ++ bodyLog substitute said c s₂ := by
  rw [commandLog, Log.andThen_ok hinput, Log.andThen_ok hrouting,
    ← diagnostics_of_input hsub hinput, ← diagnostics_of_routing hsub hrouting, List.append_assoc]

/-- Diagnostics of the body come after those of the redirections, before its own errors. -/
theorem delivers_of_gives {data inputDiagnostics outputDiagnostics : Bytes} {r : Routing}
    {own : CommandOutcome} {delivery : Delivery} {s₁ s₂ s₃ : Session W}
    (hinput : input substitute c.redirections first stdin s = (.ok (data, inputDiagnostics), s₁))
    (hrouting : routing substitute {} c.redirections s₁ = (.ok (r, outputDiagnostics), s₂))
    (hgives : Gives sh substitute data c s₂ own s₃)
    (hdelivery : delivery = .ofOutcome r ((own.withDiagnostics (bodyLog substitute said c s₂))
      |>.withDiagnostics (inputDiagnostics ++ outputDiagnostics)))
    (hwrites : ShellM.onWorkspace delivery.writeFiles s₃ = (.ok (), s')) :
    Delivers sh substitute said c first stdin s
      ⟨own.exitCode, delivery.stdout, delivery.stderr⟩ s' := by
  rw [← CommandOutcome.withDiagnostics_append, ← commandLog_of_opened hsub hinput hrouting]
    at hdelivery
  have hreceived := Delivery.receivedAt_ofOutcome r
    (own.withDiagnostics (commandLog substitute said c first stdin s))
  rw [← hdelivery] at hreceived
  exact .intro hinput hrouting hgives hdelivery ⟨_, hreceived⟩ hwrites

/-- A command that succeeds has delivered all that its substitutions said. -/
theorem delivers_of_command {outcome : CommandOutcome}
    (h : command sh substitute first stdin c s = (.ok outcome, s')) :
    Delivers sh substitute said c first stdin s outcome s' := by
  cases c with
  | simple words redirections =>
    rw [command] at h
    obtain ⟨data, d₁, s₁, r, d₂, s₂, result, s₃, delivery, hinput, hrouting, hbody, hdelivery,
      hwrites, rfl⟩ := exists_of_redirected_ok h
    obtain ⟨own, hgives, rfl⟩ := gives_of_simple hsub redirections hbody
    show Delivers sh substitute said _ first stdin s
      ⟨own.exitCode, delivery.stdout, delivery.stderr⟩ s'
    exact delivers_of_gives (c := .simple words redirections) hsub hinput hrouting hgives hdelivery
      hwrites
  | group body redirections =>
    rw [command] at h
    obtain ⟨data, d₁, s₁, r, d₂, s₂, result, s₃, delivery, hinput, hrouting, hbody, hdelivery,
      hwrites, rfl⟩ := exists_of_redirected_ok h
    exact delivers_of_gives (c := .group body redirections) hsub hinput hrouting (.groups hbody)
      hdelivery hwrites

end

/-! ## Failures -/

/-- A stage that fails leaves its message and nothing else, or ends the script. -/
theorem pipeline_of_error {e : ShellError} (rest : List Command)
    (h : command sh substitute first stdin c s = (.error e, s')) :
    pipeline sh substitute first stdin (c :: rest) s =
      if e.isFatal then (.error e, s')
      else (.ok { exitCode := 127, stderr := Bytes.ofString (e.message ++ "\n") }, s') := by
  have hattempt : ShellM.attempt (command sh substitute first stdin c) s
      = (.ok (.error e), s') := by
    rw [ShellM.attempt, h]
  rw [pipeline, bind_apply_ok hattempt]
  dsimp only
  cases e.isFatal <;> rfl

/-- A message alone has something else before it only where that is nothing. -/
theorem exists_before_message_iff (said message : Bytes) :
    (∃ before between, message = before ++ said ++ between ++ message) ↔ said = [] := by
  constructor
  · rintro ⟨before, between, h⟩
    have hlength := congrArg List.length h
    simp only [List.length_append] at hlength
    exact List.eq_nil_of_length_eq_zero (by omega)
  · rintro rfl
    exact ⟨[], [], by simp⟩

/-- What becomes of all that the substitutions of a stage say. If the command succeeds, it is
delivered to where errors go, before the command's own. If the command fails, the stage has the
message of the failure alone, so that it is lost unless it is empty; or the failure ends the script
and there is no outcome at all. -/
theorem stage_reports_iff (sh : Shell W) (depth : Nat) (c : Command) (rest : List Command)
    (first : Bool) (stdin : Bytes) (s : Session W) :
    match command sh (sh.substitute depth) first stdin c s with
    | (.ok outcome, s') =>
      Delivers sh (sh.substitute depth) (sh.said depth) c first stdin s outcome s'
    | (.error e, s') =>
      (e.isFatal → pipeline sh (sh.substitute depth) first stdin (c :: rest) s = (.error e, s'))
      ∧ (¬ e.isFatal → ∃ outcome,
        pipeline sh (sh.substitute depth) first stdin (c :: rest) s = (.ok outcome, s')
          ∧ outcome.exitCode = 127 ∧ outcome.stdout = []
          ∧ outcome.stderr = Bytes.ofString (e.message ++ "\n")
          ∧ ((∃ before between, outcome.stderr
              = before ++ commandLog (sh.substitute depth) (sh.said depth) c first stdin s
                ++ between ++ Bytes.ofString (e.message ++ "\n"))
            ↔ commandLog (sh.substitute depth) (sh.said depth) c first stdin s = [])) := by
  split
  · next outcome s' hcommand => exact delivers_of_command (sh.says_substitute depth) hcommand
  · next e s' hcommand =>
    have hpipeline := pipeline_of_error rest hcommand
    refine ⟨fun hfatal => ?_, fun hstage => ?_⟩
    · rw [hpipeline, if_pos hfatal]
    · rw [if_neg hstage] at hpipeline
      exact ⟨_, hpipeline, rfl, rfl, rfl, exists_before_message_iff _ _⟩

/-- The first word is no command; the second one runs a script that complains. -/
def unknownCommand : Command :=
  .simple [⟨[⟨.none, "nope"⟩]⟩, ⟨[⟨.none, "$(cat x)"⟩]⟩] []

/-- An unknown command takes the complaint of its substitution with it. -/
theorem not_forall_reports : ¬ ∀ (sh : Shell Tree) (depth : Nat) (c : Command) (first : Bool)
    (stdin : Bytes) (s s' : Session Tree) (e : ShellError) (outcome : CommandOutcome),
    command sh (sh.substitute depth) first stdin c s = (.error e, s') → ¬ e.isFatal →
    pipeline sh (sh.substitute depth) first stdin [c] s = (.ok outcome, s') →
    ∃ before between, outcome.stderr
      = before ++ commandLog (sh.substitute depth) (sh.said depth) c first stdin s
        ++ between ++ Bytes.ofString (e.message ++ "\n") := by
  intro h
  -- on the empty tree the script cannot find its file
  let sh : Shell Tree := {}
  let s : Session Tree := ⟨.empty, {}⟩
  have hresult : (command sh (sh.substitute 1) true [] unknownCommand s).1
      = .error (.commandNotFound "nope") := by decide +kernel
  have hcommand : command sh (sh.substitute 1) true [] unknownCommand s
      = (.error (.commandNotFound "nope"), _) := Prod.ext hresult rfl
  have hpipeline := pipeline_of_error [] hcommand
  rw [if_neg (by decide)] at hpipeline
  have hreports := h sh 1 unknownCommand true [] s _ _ _ hcommand (by decide) hpipeline
  have hlost := (exists_before_message_iff _ _).1 hreports
  exact absurd hlost (by decide +kernel)

end Run

end Sandshell
