import Sandshell.Proofs.Shell.Frame

/-!
# What a run depends on

Expanding a word asks for the parameters and runs the scripts that the word itself spells; what these
stand for is never looked at again. So a run depends on substitutions only at the texts that are
spelled in its script, and on its shell only through the commands that have names.
-/

namespace Sandshell

/-! ## What words ask for -/

mutual

/-- The parameters that a piece may ask for. -/
def Piece.parameters : Piece → List Parameter
  | .parameter p => [p]
  | .parameterOr p default => p :: Piece.parametersIn default
  | _ => []

/-- The parameters that pieces may ask for. -/
def Piece.parametersIn : List Piece → List Parameter
  | [] => []
  | p :: rest => p.parameters ++ Piece.parametersIn rest

end

/-- The parameters that a part of a word may ask for. -/
def WordPart.parameters (p : WordPart) : List Parameter :=
  if p.quote = .single then [] else Piece.parametersIn (Piece.scan p.text.toList)

/-- The parameters that a word may ask for. -/
def Word.parameters (w : Word) : List Parameter :=
  w.parts.flatMap WordPart.parameters

/-- The scripts that the target of a redirection may run. -/
def Redirection.scripts (r : Redirection) : List String :=
  r.target?.elim [] Word.scripts

/-- The scripts that the words and redirections of a command may run. -/
def Command.scripts (c : Command) : List String :=
  c.words.flatMap Word.scripts ++ c.redirections.flatMap Redirection.scripts

/-- The scripts that all commands in a script may run. -/
def Script.scripts (ss : Script) : List String :=
  (Script.commands ss).flatMap Command.scripts

/-! ## Expansion -/

variable {W : Type}

/-- Two contexts in the same directory in which the parameters have the same values and the scripts
stand for the same texts. -/
structure ExpandContext.Agree (ctx ctx' : ExpandContext W) (parameters : List Parameter)
    (scripts : List String) : Prop where
  cwd : ctx.state.cwd = ctx'.state.cwd
  value : ∀ p ∈ parameters, p.value? ctx.state = p.value? ctx'.state
  text : ∀ script ∈ scripts, ctx.substitute script = ctx'.substitute script

/-- Contexts that agree on some parameters and scripts agree on fewer. -/
theorem ExpandContext.Agree.mono {ctx ctx' : ExpandContext W}
    {parameters parameters' : List Parameter} {scripts scripts' : List String}
    (h : ctx.Agree ctx' parameters scripts) (hparameters : parameters' ⊆ parameters)
    (hscripts : scripts' ⊆ scripts) : ctx.Agree ctx' parameters' scripts' where
  cwd := h.cwd
  value p hp := h.value p (hparameters hp)
  text script hscript := h.text script (hscripts hscript)

namespace Expand

variable {ctx ctx' : ExpandContext W}

mutual

/-- A piece has the same value where its parameters and scripts have. -/
theorem piece_eq_of_agree : ∀ p : Piece, ctx.Agree ctx' p.parameters p.scripts →
    piece ctx p = piece ctx' p
  | .char _, _ => rfl
  | .parameter p, h => by
    rw [piece, piece, h.value p (List.mem_singleton_self p)]
  | .parameterOr p default, h => by
    have hdefault := pieces_eq_of_agree default
      (h.mono (List.subset_cons_self _ _) (List.Subset.refl _))
    rw [piece, piece, h.value p List.mem_cons_self, hdefault]
  | .substitution script, h => by
    rw [piece, piece, h.text script (List.mem_singleton_self script)]
  | .unclosedSubstitution, _ => rfl
  | .badSubstitution _, _ => rfl

/-- So do pieces, one after the other. -/
theorem pieces_eq_of_agree : ∀ ps : List Piece,
    ctx.Agree ctx' (Piece.parametersIn ps) (Piece.scriptsIn ps) → pieces ctx ps = pieces ctx' ps
  | [], _ => rfl
  | p :: rest, h => by
    have hfirst := piece_eq_of_agree p
      (h.mono (List.subset_append_left _ _) (List.subset_append_left _ _))
    have hrest := pieces_eq_of_agree rest
      (h.mono (List.subset_append_right _ _) (List.subset_append_right _ _))
    rw [pieces, pieces, hfirst, hrest]

end

/-- And a part, whatever its quotes. -/
theorem part_eq_of_agree {p : WordPart} (h : ctx.Agree ctx' p.parameters p.scripts) :
    part ctx p = part ctx' p := by
  unfold WordPart.parameters WordPart.scripts at h
  unfold part
  split
  · rfl
  · next hquote =>
    rw [if_neg (by simp [hquote]), if_neg (by simp [hquote])] at h
    rw [pieces_eq_of_agree _ h]
  · next hquote =>
    rw [if_neg (by simp [hquote]), if_neg (by simp [hquote])] at h
    exact pieces_eq_of_agree _ h

/-- Steps that agree on all elements of a list agree on the list. -/
theorem mapM_congr {α β : Type} {f g : α → ExpandM W β} {l : List α} (h : ∀ a ∈ l, f a = g a) :
    l.mapM f = l.mapM g := by
  induction l with
  | nil => rfl
  | cons a rest ih =>
    rw [List.forall_mem_cons] at h
    rw [List.mapM_cons, List.mapM_cons, h.1, ih h.2]

/-- A word falls into the same fragments. -/
theorem fragments_eq_of_agree {w : Word} (h : ctx.Agree ctx' w.parameters w.scripts) :
    fragments ctx w = fragments ctx' w := by
  have hparts : w.parts.mapM (part ctx) = w.parts.mapM (part ctx') :=
    mapM_congr fun p hp => part_eq_of_agree (h.mono
      (fun x hx => List.mem_flatMap.2 ⟨p, hp, hx⟩) fun x hx => List.mem_flatMap.2 ⟨p, hp, hx⟩)
  rw [fragments, fragments, hparts]

theorem toText_eq_of_agree {w : Word} (h : ctx.Agree ctx' w.parameters w.scripts) :
    toText ctx w = toText ctx' w := by
  rw [toText, toText, fragments_eq_of_agree h]

variable [Workspace W]

/-- The fields of a word depend on the parameters and scripts that it spells and on the directory,
whatever text these stand for. -/
theorem word_eq_of_agree {w : Word} (h : ctx.Agree ctx' w.parameters w.scripts) :
    word ctx w = word ctx' w := by
  rw [word, word, fragments_eq_of_agree h, h.cwd]

end Expand

/-! ## Runs -/

namespace Run

/-- Two ways to run scripts give the same for some texts, in every state. -/
def AgreeOn (substitute substitute' : Substitute W) (scripts : List String) : Prop :=
  ∀ state, ∀ script ∈ scripts, substitute state script = substitute' state script

variable {substitute substitute' : Substitute W} {scripts scripts' : List String}

/-- Ways to substitute that agree on some scripts agree on fewer. -/
theorem AgreeOn.mono (h : AgreeOn substitute substitute' scripts) (hsub : scripts' ⊆ scripts) :
    AgreeOn substitute substitute' scripts' :=
  fun state script hscript => h state script (hsub hscript)

theorem agreeOn_append : AgreeOn substitute substitute' (scripts ++ scripts')
    ↔ AgreeOn substitute substitute' scripts ∧ AgreeOn substitute substitute' scripts' := by
  simp only [AgreeOn, List.forall_mem_append, forall_and]

/-- Expansions in the same state agree if their substitutions do. -/
theorem AgreeOn.agree (h : AgreeOn substitute substitute' scripts) (state : ShellState)
    (parameters : List Parameter) :
    (⟨state, substitute state⟩ : ExpandContext W).Agree ⟨state, substitute' state⟩ parameters
      scripts :=
  ⟨rfl, fun _ _ => rfl, h state⟩

theorem expand_congr {α : Type} {step step' : ExpandContext W → ExpandM W α}
    (h : ∀ state, step ⟨state, substitute state⟩ = step' ⟨state, substitute' state⟩) :
    expand substitute step = expand substitute' step' := by
  simp only [expand, h]

variable [Workspace W] {sh sh' : Shell W}

/-- Words are expanded alike where their scripts are. -/
theorem expansion_eq_of_agree {words : List Word}
    (h : AgreeOn substitute substitute' (words.flatMap Word.scripts)) :
    expansion substitute words = expansion substitute' words := by
  have hword : ∀ w ∈ words, AgreeOn substitute substitute' w.scripts := fun w hw =>
    h.mono fun x hx => List.mem_flatMap.2 ⟨w, hw, hx⟩
  refine expand_congr fun state => ?_
  congr 1
  · refine Expand.mapM_congr fun a ha => ?_
    obtain ⟨w, hw, hassignment⟩ := exists_word_of_mem_splitAssignments ha
    have hvalue := (hword w hw).mono (Word.scripts_subset_of_assignment? hassignment)
    dsimp only
    rw [Expand.toText_eq_of_agree (hvalue.agree state _)]
  · funext values
    rw [Expand.words, Expand.words, Expand.mapM_congr fun w hw => Expand.word_eq_of_agree
      ((hword w (splitAssignments_subset words hw)).agree state _)]

/-- A simple command is run alike by shells that run names alike. -/
theorem simple_eq_of_agree (hnamed : named sh = named sh') {words : List Word} (stdin : Bytes)
    (h : AgreeOn substitute substitute' (words.flatMap Word.scripts)) :
    simple sh substitute words stdin = simple sh' substitute' words stdin := by
  funext s
  rw [simple_apply, simple_apply, expansion_eq_of_agree h, hnamed]

/-- Targets resolve alike. -/
theorem target_eq_of_agree {w : Word} (h : AgreeOn substitute substitute' w.scripts) :
    target substitute w = target substitute' w := by
  have hword : expand substitute (fun ctx => Expand.word ctx w)
      = expand substitute' fun ctx => Expand.word ctx w :=
    expand_congr fun state => Expand.word_eq_of_agree (h.agree state _)
  rw [target, target, hword]

theorem input_eq_of_agree {redirections : List Redirection} (first : Bool) (stdin : Bytes)
    (h : AgreeOn substitute substitute' (redirections.flatMap Redirection.scripts)) :
    input substitute redirections first stdin = input substitute' redirections first stdin := by
  unfold input
  split
  · next w hw =>
    have hmem := mem_of_inputTarget? hw
    rw [target_eq_of_agree (h.mono fun x hx => List.mem_flatMap.2 ⟨_, hmem, hx⟩)]
  · rfl

/-- Redirections lead to the same places. -/
theorem routing_eq_of_agree (r : Routing) {redirections : List Redirection}
    (h : AgreeOn substitute substitute' (redirections.flatMap Redirection.scripts)) :
    routing substitute r redirections = routing substitute' r redirections := by
  fun_induction routing substitute r redirections with
  | case1 => rfl
  | case2 r w rest ih => exact ih (agreeOn_append.1 h).2
  | case3 r rest ih => exact ih (agreeOn_append.1 h).2
  | case4 r stream mode w rest ih =>
    rw [List.flatMap_cons, agreeOn_append] at h
    have htarget : target substitute w = target substitute' w := target_eq_of_agree h.1
    simp only [routing, htarget, ih _ h.2]

/-- A body that runs alike does so with its redirections. -/
theorem redirected_eq_of_agree {redirections : List Redirection} (first : Bool) (stdin : Bytes)
    (h : AgreeOn substitute substitute' (redirections.flatMap Redirection.scripts))
    {body body' : Bytes → ShellM W CommandOutcome} (hbody : ∀ stdin, body stdin = body' stdin) :
    redirected substitute redirections first stdin body
      = redirected substitute' redirections first stdin body' := by
  simp only [redirected, input_eq_of_agree first stdin h, routing_eq_of_agree {} h, hbody]

mutual

/-- A command runs alike where all scripts inside do. -/
theorem command_eq_of_agree (hnamed : named sh = named sh') (first : Bool) (stdin : Bytes) :
    ∀ c : Command, AgreeOn substitute substitute' (c.commands.flatMap Command.scripts) →
      command sh substitute first stdin c = command sh' substitute' first stdin c
  | .simple words redirections, h => by
    simp only [Command.commands, List.flatMap_cons, List.flatMap_nil, List.append_nil,
      Command.scripts, agreeOn_append] at h
    exact redirected_eq_of_agree first stdin h.2 fun stdin => simple_eq_of_agree hnamed stdin h.1
  | .group body redirections, h => by
    simp only [Command.commands, List.flatMap_append, List.flatMap_cons, List.flatMap_nil,
      List.append_nil, Command.scripts, agreeOn_append] at h
    have hbody := fun stdin => script_eq_of_agree hnamed stdin body h.1
    have hredirections :
        AgreeOn substitute substitute' (redirections.flatMap Redirection.scripts) := h.2.2
    rw [command, command]
    exact redirected_eq_of_agree first stdin hredirections fun stdin => by rw [hbody]

/-- So does a pipeline, stage by stage. -/
theorem pipeline_eq_of_agree (hnamed : named sh = named sh') (first : Bool) (stdin : Bytes) :
    ∀ stages : List Command,
      AgreeOn substitute substitute' ((Pipeline.commands stages).flatMap Command.scripts) →
      pipeline sh substitute first stdin stages = pipeline sh' substitute' first stdin stages
  | [], _ => rfl
  | stage :: rest, h => by
    rw [Pipeline.commands, List.flatMap_append, agreeOn_append] at h
    have hstage := command_eq_of_agree hnamed first stdin stage h.1
    have hrest := fun stdin => pipeline_eq_of_agree hnamed false stdin rest h.2
    simp only [pipeline, hstage, hrest]

/-- So do the pipelines behind a first one. -/
theorem guarded_eq_of_agree (hnamed : named sh = named sh') :
    ∀ steps : List (Connector × List Command),
      AgreeOn substitute substitute' ((Tail.commands steps).flatMap Command.scripts) →
      guarded sh substitute steps = guarded sh' substitute' steps
  | [], _ => rfl
  | (connector, stages) :: rest, h => by
    rw [Tail.commands, List.flatMap_append, agreeOn_append] at h
    have hstages := pipeline_eq_of_agree hnamed true [] stages h.1
    have hrest := guarded_eq_of_agree hnamed rest h.2
    simp only [guarded, hstages, hrest]

/-- And so does a whole sequence. -/
theorem sequence_eq_of_agree (hnamed : named sh = named sh') (stdin : Bytes) :
    ∀ s : Sequence, AgreeOn substitute substitute' (s.commands.flatMap Command.scripts) →
      sequence sh substitute stdin s = sequence sh' substitute' stdin s
  | .chain head tail, h => by
    rw [Sequence.commands, List.flatMap_append, agreeOn_append] at h
    have hhead := pipeline_eq_of_agree hnamed true stdin head h.1
    have htail := guarded_eq_of_agree hnamed tail h.2
    simp only [sequence, hhead, htail]

/-- Runs of one script are the same if named commands do the same, and if substitutions stand for
the same texts where the script has one. -/
theorem script_eq_of_agree (hnamed : named sh = named sh') (stdin : Bytes) :
    ∀ ss : List Sequence, AgreeOn substitute substitute' (Script.scripts ss) →
      script sh substitute stdin ss = script sh' substitute' stdin ss
  | [], _ => rfl
  | first :: rest, h => by
    rw [Script.scripts, Script.commands, List.flatMap_append, agreeOn_append] at h
    have hfirst := sequence_eq_of_agree hnamed stdin first h.1
    have hrest := script_eq_of_agree hnamed [] rest h.2
    simp only [script, hfirst, hrest]

end

end Run

/-! ## Shells with other settings -/

variable [Workspace W] {sh sh' : Shell W}

/-- Utilities look at no settings but the names of the user and the host. -/
theorem Utility.run_config (u : Utility) (ctx : UtilityContext) {config : ShellConfig}
    (huser : config.user = ctx.config.user) (hhostname : config.hostname = ctx.config.hostname)
    (args : List String) :
    (u.run { ctx with config } args : WorkspaceM W CommandOutcome) = u.run ctx args := by
  cases u with
  | uname => simp only [run, unameOutcome, hhostname]
  | whoami => simp only [run, whoamiOutcome, huser]
  | _ => rfl

/-- Limits of the output are told to nobody but the delegate. -/
theorem Run.named_config {config : ShellConfig} (huser : config.user = sh.config.user)
    (hhostname : config.hostname = sh.config.hostname)
    (hlimits : ∀ d, sh.delegate? = some d → config.limits = sh.config.limits) :
    named { sh with config } = named sh := by
  funext values name args stdin
  have hdelegated : ({ sh with config } : Shell W).delegated = sh.delegated := rfl
  rw [named, named, hdelegated]
  congr 1
  funext state
  dsimp only
  split
  · rfl
  · next d _ hd => rw [hlimits d hd]
  · next u _ =>
    have hrun := Utility.run_config (W := W) u ⟨sh.config, state.cwd, withValues state.env values,
      stdin, sh.now⟩ huser hhostname args
    rw [hrun]
  · rfl

/-- By induction on the substitutions that may still be nested. -/
theorem Shell.substitute_congr (hnamed : Run.named sh = Run.named sh')
    (hlimit : sh.config.maxSubstitutionDepth = sh'.config.maxSubstitutionDepth) (depth : Nat) :
    sh.substitute depth = sh'.substitute depth := by
  induction depth with
  | zero =>
    funext state text
    rw [substitute, substitute, hlimit]
  | succ depth ih =>
    funext state text
    rw [substitute, substitute, ih]
    split
    · rfl
    · next script _ =>
      rw [Run.script_eq_of_agree hnamed [] script fun _ _ _ => rfl]

end Sandshell
