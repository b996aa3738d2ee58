import Sandshell.Proofs.Shell.Expansion
import Sandshell.Proofs.Shell.Quoting
import Sandshell.Proofs.Shell.Sequencing

/-!
# Simple commands

A simple command expands its words and then either assigns or runs the command that they name. Alone
it is a whole script.
-/

namespace Sandshell

/-- A word of one unquoted part. -/
def Word.bare (text : String) : Word :=
  ⟨[⟨.none, text⟩]⟩

namespace Expand

/-! ## Texts that stand for themselves -/

variable {W : Type} (ctx : ExpandContext W) (e : Expanding W) {text : String}

/-- Characters stand for themselves. -/
theorem pieces_chars (chars : List Char) : pieces ctx (chars.map .char) e
    = (.ok (chars.map fun c => ⟨.literal, String.singleton c⟩), e) := by
  induction chars with
  | nil => rfl
  | cons c rest ih =>
    rw [List.map_cons, pieces, bind_apply_ok (show piece ctx (.char c) e = (.ok _, e) from rfl),
      bind_apply_ok ih]
    rfl

theorem fragments_bare (text : String) :
    fragments ctx (.bare text) = pieces ctx (Piece.scan text.toList) := by
  simp [fragments, Word.bare, part]

/-- Without dollar signs each character is a fragment of its own. -/
theorem fragments_chars (hdollar : '$' ∉ text.toList) : fragments ctx (.bare text) e
    = (.ok (text.toList.map fun c => ⟨.literal, String.singleton c⟩), e) := by
  have hscan : Piece.scan text.toList = text.toList.map .char := by
    have happend := Piece.scan_append hdollar []
    rwa [List.append_nil, Piece.scan, List.append_nil] at happend
  rw [fragments_bare, hscan, pieces_chars]

/-- Such fragments are one field, and no star of the script is among its glyphs. -/
theorem ofFragments_chars {chars : List Char} (hne : chars ≠ []) (hstar : '*' ∉ chars) :
    Field.ofFragments (chars.map fun c => ⟨.literal, String.singleton c⟩)
      = [⟨false, chars.map .char⟩] := by
  have hmarks : (chars.map fun c => (⟨.literal, String.singleton c⟩ : Fragment)).flatMap
      Fragment.marks = (chars.map Glyph.char).map .glyph := by
    rw [List.flatMap_map, List.map_map, List.map_eq_flatMap]
    refine List.flatMap_congr fun c hc => ?_
    simp [Fragment.marks, Fragment.unquotedMark, ne_of_mem_of_not_mem hc hstar]
  have hcut := Field.cut_map_glyph [] false [] (chars.map .char) []
  rw [List.append_nil, List.append_nil] at hcut
  rw [Field.ofFragments, hmarks, hcut]
  simp [Field.cut, Field.ofNewest?, hne]

/-- A text that is itself outside quotes: no form and no wildcard is in it. -/
def IsLiteral (text : String) : Prop :=
  text ≠ "" ∧ '$' ∉ text.toList ∧ '*' ∉ text.toList

instance (text : String) : Decidable (IsLiteral text) :=
  inferInstanceAs (Decidable (_ ∧ _))

variable [Workspace W]

/-- Such a text is one field, and expanding it changes nothing. -/
theorem word_literal (h : IsLiteral text) : word ctx (.bare text) e = (.ok [text], e) := by
  obtain ⟨hne, hdollar, hstar⟩ := h
  have hchars : text.toList ≠ [] := fun hnil => hne (String.toList_eq_nil_iff.1 hnil)
  have hfield : ∀ f ∈ [(⟨false, text.toList.map .char⟩ : Field)],
      field ctx.state.cwd f e = (.ok [f.text], e) := by
    intro f hf
    obtain rfl := List.mem_singleton.1 hf
    rw [field, Field.hasWildcard_map_char]
    rfl
  rw [word, bind_apply_ok (fragments_chars ctx e hdollar), ofFragments_chars hchars hstar,
    bind_apply_ok (mapM_apply_ok hfield), List.map_cons, Field.text_map_char]
  rfl

/-- Plain words expand to the texts they are written with. -/
theorem words_literals {texts : List String} (h : ∀ text ∈ texts, IsLiteral text) :
    words ctx (texts.map .bare) e = (.ok texts, e) := by
  have hwords : (texts.map .bare).mapM (word ctx) e = (.ok (texts.map ([·])), e) := by
    rw [List.mapM_map]
    exact mapM_apply_ok fun text htext => word_literal ctx e (h text htext)
  have hflat : (texts.map ([·])).flatten = texts := by
    rw [← List.flatMap_def]
    exact List.flatMap_singleton' texts
  rw [words, bind_apply_ok hwords, hflat]
  rfl

end Expand

/-- Gives variables their values in order. -/
def ShellState.assignAll (s : ShellState) (values : List (String × String)) : ShellState :=
  values.foldl (fun s (name, value) => s.assign name value) s

namespace Run

/-! ## Steps that leave the state alone -/

section

variable {W α : Type}

/-- The state of the shell stays, also when a step fails. -/
def still : Law (Session W) ShellError :=
  .along (fun s s' => s'.state = s.state) (fun _ => rfl) fun _ _ _ h h' => h'.trans h

/-- A still step leaves the state of the shell as it is. -/
theorem state_of_still {step : ShellM W α} (h : still.Obeys step) (s : Session W) :
    (step s).2.state = s.state :=
  Law.obeys_along_iff.1 h s

theorem still_state : still.Obeys (ShellM.state : ShellM W ShellState) :=
  Law.obeys_along_iff.2 fun _ => rfl

theorem still_throw (e : ShellError) : still.Obeys (throw e : ShellM W α) :=
  Law.obeys_throw fun _ => rfl

/-- Steps of the workspace are still. -/
theorem still_onWorkspaceOr {ε : Type} (fail : ε → ShellError)
    (step : ExceptT ε (StateM W) α) : still.Obeys (ShellM.onWorkspaceOr fail step) := by
  refine Law.obeys_along_iff.2 fun s => ?_
  rw [ShellM.onWorkspaceOr]
  split
  · rfl
  · rfl

theorem still_onWorkspace (step : WorkspaceM W α) : still.Obeys (ShellM.onWorkspace step) :=
  still_onWorkspaceOr _ _

/-- Substitutions run on copies, so no expansion changes the state. -/
theorem still_expand (substitute : Substitute W) (step : ExpandContext W → ExpandM W α) :
    still.Obeys (expand substitute step) := by
  refine Law.obeys_along_iff.2 fun s => ?_
  rw [expand, bind_apply_ok (show ShellM.state s = (.ok s.state, s) from rfl), ShellM.expanding]
  split
  · rfl
  · rfl

end

/-! ## What a simple command does -/

variable {W : Type} [Workspace W] {sh : Shell W} {substitute : Substitute W}
variable {words : List Word} {s s' : Session W}

/-- The values that a simple command assigns, and its fields. -/
def expansion (substitute : Substitute W) (words : List Word) :
    ShellM W ((List (String × String) × List String) × Bytes) :=
  expand substitute fun ctx => do
    let values ← (splitAssignments words).1.mapM fun (name, value) =>
      return (name, ← Expand.toText ctx value)
    return (values, ← Expand.words ctx (splitAssignments words).2)

/-- So is the expansion of words. -/
theorem state_of_expansion (substitute : Substitute W) (words : List Word) (s : Session W) :
    (expansion substitute words s).2.state = s.state :=
  state_of_still (still_expand substitute _) s

/-- Words that are no assignments and change nothing are expanded alone. -/
theorem expansion_of_words {argv : List String} (hsplit : splitAssignments words = ([], words))
    (hwords : Expand.words ⟨s.state, substitute s.state⟩ words ⟨s.workspace, []⟩
      = (.ok argv, ⟨s.workspace, []⟩)) :
    expansion substitute words s = (.ok (([], argv), []), s) := by
  rw [expansion, hsplit, expand, bind_apply_ok (show ShellM.state s = (.ok s.state, s) from rfl),
    ShellM.expanding, List.mapM_nil, pure_bind, bind_apply_ok hwords]
  rfl

/-- A word that changes nothing names the target that its one field leads to. -/
theorem target_of_word {w : Word} {operand path : String}
    (hword : Expand.word ⟨s.state, substitute s.state⟩ w ⟨s.workspace, []⟩
      = (.ok [operand], ⟨s.workspace, []⟩)) (hne : operand ≠ "")
    (hpath : resolvePath s.state.cwd operand = .ok path) :
    target substitute w s = (.ok (path, []), s) := by
  have hstate : ShellM.state s = (.ok s.state, s) := rfl
  have hexpand : expand substitute (fun ctx => Expand.word ctx w) s = (.ok ([operand], []), s) := by
    rw [expand, bind_apply_ok hstate, ShellM.expanding, hword]
  rw [target, bind_apply_ok hexpand]
  dsimp only
  rw [if_neg hne, bind_apply_ok hstate, hpath]
  rfl

/-- A target is the one field of its word, resolved from the working directory. -/
theorem of_target_eq_ok {w : Word} {path : String} {diagnostics : Bytes}
    (h : target substitute w s = (.ok (path, diagnostics), s')) :
    ∃ operand, expand substitute (fun ctx => Expand.word ctx w) s = (.ok ([operand], diagnostics), s')
      ∧ resolvePath s.state.cwd operand = .ok path := by
  obtain ⟨⟨fields, said⟩, mid, hexpand, hrest⟩ := exists_of_bind_apply_ok h
  have hstate : mid.state = s.state := (still_expand _ _).ok hexpand
  dsimp only at hrest
  split at hrest
  · next operand =>
    by_cases hempty : operand = ""
    · rw [if_pos hempty] at hrest
      obtain ⟨_, _, hthrow, -⟩ := exists_of_bind_apply_ok hrest
      cases hthrow
    · rw [if_neg hempty] at hrest
      obtain ⟨state, mid', hread, hresolve⟩ := exists_of_bind_apply_ok hrest
      cases hread
      refine ⟨operand, ?_⟩
      rw [← hstate]
      cases hpath : resolvePath mid.state.cwd operand with
      | error e =>
        rw [hpath] at hresolve
        cases hresolve
      | ok resolved =>
        rw [hpath] at hresolve
        cases hresolve
        exact ⟨hexpand, rfl⟩
  · cases hrest

/-- An assignment is read from a word. -/
theorem exists_word_of_mem_splitAssignments {words : List Word} {a : String × Word}
    (h : a ∈ (splitAssignments words).1) : ∃ w ∈ words, w.assignment? = some a := by
  induction words with
  | nil => contradiction
  | cons w rest ih =>
    rw [splitAssignments] at h
    cases hw : w.assignment? with
    | none =>
      rw [hw] at h
      contradiction
    | some assignment =>
      rw [hw] at h
      rcases List.mem_cons.1 h with rfl | hmem
      · exact ⟨w, List.mem_cons_self, hw⟩
      · obtain ⟨w', hw', hassignment⟩ := ih hmem
        exact ⟨w', List.mem_cons_of_mem w hw', hassignment⟩

/-- What is left after the assignments are words of the command. -/
theorem splitAssignments_subset (words : List Word) : (splitAssignments words).2 ⊆ words := by
  induction words with
  | nil => exact List.Subset.refl []
  | cons w rest ih =>
    rw [splitAssignments]
    split
    · exact List.subset_cons_of_subset w ih
    · exact List.Subset.refl (w :: rest)

/-- All that a simple command can do: fail with its expansion, assign what it expanded to, or run
the command that it names. -/
theorem simple_apply (sh : Shell W) (substitute : Substitute W) (words : List Word) (stdin : Bytes)
    (s : Session W) :
    simple sh substitute words stdin s =
      match expansion substitute words s with
      | (.error e, s₁) => (.error e, s₁)
      | (.ok ((values, []), diagnostics), s₁) =>
        (.ok { stderr := diagnostics }, { s₁ with state := s₁.state.assignAll values })
      | (.ok ((values, name :: args), diagnostics), s₁) =>
        match named sh values name args stdin s₁ with
        | (.error e, s₂) => (.error e, s₂)
        | (.ok outcome, s₂) => (.ok (outcome.withDiagnostics diagnostics), s₂) := by
  show (expansion substitute words >>= _) s = _
  rcases h : expansion substitute words s with ⟨e | ⟨⟨values, _ | ⟨name, args⟩⟩, diagnostics⟩, s₁⟩
  · exact bind_apply_error h
  · exact bind_apply_ok h
  · rw [bind_apply_ok h]
    dsimp only
    rcases hnamed : named sh values name args stdin s₁ with ⟨e | outcome, s₂⟩
    · exact bind_apply_error hnamed
    · exact bind_apply_ok hnamed

/-- Such words run the command that the first of their fields names. -/
theorem simple_of_words {name : String} {args : List String}
    (hsplit : splitAssignments words = ([], words))
    (hwords : Expand.words ⟨s.state, substitute s.state⟩ words ⟨s.workspace, []⟩
      = (.ok (name :: args), ⟨s.workspace, []⟩)) (stdin : Bytes) :
    simple sh substitute words stdin s = named sh [] name args stdin s := by
  rw [simple_apply, expansion_of_words hsplit hwords]
  dsimp only
  rcases named sh [] name args stdin s with ⟨e | outcome, s₂⟩
  · rfl
  · rfl

/-! ## A command as a script -/

/-- Without redirections a command runs as it is. -/
theorem redirected_nil (first : Bool) (stdin : Bytes) (body : Bytes → ShellM W CommandOutcome) :
    redirected substitute [] first stdin body = body stdin := by
  funext s
  show (body stdin >>= _) s = _
  rcases h : body stdin s with ⟨e | outcome, s'⟩
  · exact bind_apply_error h
  · rw [bind_apply_ok h]
    rfl

/-- A command that succeeds is a script with its outcome. -/
theorem script_lone {stdin : Bytes} {c : Command} {outcome : CommandOutcome}
    (h : command sh substitute true stdin c s = (.ok outcome, s')) :
    script sh substitute stdin [.chain [c] []] s
      = (.ok outcome, { s' with state := { s'.state with lastExitCode := outcome.exitCode } }) := by
  have hattempt : ShellM.attempt (command sh substitute true stdin c) s = (.ok (.ok outcome), s') := by
    rw [ShellM.attempt, h]
  have hjoined : { outcome with stderr := outcome.stderr ++ [] } = outcome := by
    rw [List.append_nil]
  have hpipeline : pipeline sh substitute true stdin [c] s = (.ok outcome, s') := by
    rw [pipeline, bind_apply_ok hattempt]
    simp only [pipeline, pure_bind]
    exact Prod.ext (congrArg Except.ok hjoined) rfl
  have hrecorded : recorded (pipeline sh substitute true stdin [c]) s
      = (.ok outcome, { s' with state := { s'.state with lastExitCode := outcome.exitCode } }) := by
    rw [recorded, bind_apply_ok hpipeline]
    rfl
  have hidle : outcome.followedBy (.code outcome.exitCode) = outcome := by
    simp [CommandOutcome.followedBy, CommandOutcome.code]
  have hsequence : sequence sh substitute stdin (.chain [c] []) s
      = (.ok outcome, { s' with state := { s'.state with lastExitCode := outcome.exitCode } }) := by
    rw [sequence, bind_apply_ok hrecorded, guarded]
    exact Prod.ext (congrArg Except.ok hidle) rfl
  rw [script, bind_apply_ok hsequence, script]
  exact Prod.ext (congrArg Except.ok hidle) rfl

/-- A command with a fatal failure is a script with that failure. -/
theorem script_lone_of_isFatal {stdin : Bytes} {c : Command} {e : ShellError} (he : e.isFatal = true)
    (h : command sh substitute true stdin c s = (.error e, s')) :
    script sh substitute stdin [.chain [c] []] s = (.error e, s') := by
  have hattempt : ShellM.attempt (command sh substitute true stdin c) s = (.ok (.error e), s') := by
    rw [ShellM.attempt, h]
  have hpipeline : pipeline sh substitute true stdin [c] s = (.error e, s') := by
    rw [pipeline, bind_apply_ok hattempt]
    simp only [he, if_true]
    rfl
  have hsequence : sequence sh substitute stdin (.chain [c] []) s = (.error e, s') := by
    rw [sequence, bind_apply_error (show recorded _ s = _ from bind_apply_error hpipeline)]
  rw [script, bind_apply_error hsequence]

end Run

/-- So is a simple command that the text consists of. -/
theorem Shell.execute_lone_of_isFatal {W : Type} [Workspace W] (sh : Shell W) {text : String}
    {words : List Word} {s s' : Session W} {e : ShellError} (he : e.isFatal = true)
    (hparse : Script.parse text = .ok [.chain [.simple words []] []])
    (h : Run.simple sh (sh.substitute sh.config.maxSubstitutionDepth) words [] s
      = (.error e, s')) :
    sh.execute text s = (.error e, s') := by
  have hcommand : Run.command sh (sh.substitute sh.config.maxSubstitutionDepth) true []
      (.simple words []) s = (.error e, s') := by
    rw [Run.command, Run.redirected_nil]
    exact h
  rw [sh.execute_of_parse hparse, Shell.runScript, Run.script_lone_of_isFatal he hcommand]

/-- A simple command that succeeds and that the text consists of is a script with its outcome. -/
theorem Shell.execute_lone {W : Type} [Workspace W] (sh : Shell W) {text : String}
    {words : List Word} {s s' : Session W} {outcome : CommandOutcome}
    (hparse : Script.parse text = .ok [.chain [.simple words []] []])
    (h : Run.simple sh (sh.substitute sh.config.maxSubstitutionDepth) words [] s
      = (.ok outcome, s')) :
    (sh.execute text s).1 = .ok (.ofOutcome sh.config.limits outcome) := by
  have hcommand : Run.command sh (sh.substitute sh.config.maxSubstitutionDepth) true []
      (.simple words []) s = (.ok outcome, s') := by
    rw [Run.command, Run.redirected_nil]
    exact h
  rw [sh.execute_of_parse hparse, Shell.runScript, Run.script_lone hcommand]

/-! ## Words without substitutions -/

mutual

/-- Runs no script. -/
def Piece.isPlain : Piece → Bool
  | .parameterOr _ default => Piece.arePlain default
  | .substitution _ => false
  | _ => true

/-- Run no script. -/
def Piece.arePlain : List Piece → Bool
  | [] => true
  | p :: rest => p.isPlain && Piece.arePlain rest

end

/-- No part of the word runs a script. -/
def Word.isPlain (w : Word) : Bool :=
  w.parts.all fun p => p.quote = .single || Piece.arePlain (Piece.scan p.text.toList)

mutual

/-- A piece is plain if no script is in it. -/
theorem Piece.isPlain_iff : ∀ p : Piece, p.isPlain ↔ p.scripts = []
  | .parameterOr _ default => arePlain_iff default
  | .char _ => iff_of_true rfl rfl
  | .parameter _ => iff_of_true rfl rfl
  | .substitution _ => iff_of_false nofun nofun
  | .unclosedSubstitution => iff_of_true rfl rfl
  | .badSubstitution _ => iff_of_true rfl rfl

theorem Piece.arePlain_iff : ∀ ps : List Piece, Piece.arePlain ps ↔ Piece.scriptsIn ps = []
  | [] => iff_of_true rfl rfl
  | p :: rest => by
    rw [arePlain, Bool.and_eq_true, scriptsIn, List.append_eq_nil_iff, isPlain_iff p,
      arePlain_iff rest]

end

/-- So is a word. -/
theorem Word.isPlain_iff {w : Word} : w.isPlain ↔ w.scripts = [] := by
  rw [isPlain, List.all_eq_true, scripts, List.flatMap_eq_nil_iff]
  refine forall₂_congr fun p _ => ?_
  rw [WordPart.scripts, Bool.or_eq_true, decide_eq_true_eq, Piece.arePlain_iff]
  split
  · next hquote => exact iff_of_true (.inl hquote) rfl
  · next hquote => exact or_iff_right hquote

/-- Plain words assign plain words and have plain arguments. -/
theorem Run.isPlain_of_splitAssignments {words : List Word} (h : ∀ w ∈ words, w.isPlain) :
    (∀ a ∈ (splitAssignments words).1, a.2.isPlain)
      ∧ ∀ w ∈ (splitAssignments words).2, w.isPlain := by
  refine ⟨fun a ha => ?_, fun w hw => h w (splitAssignments_subset words hw)⟩
  obtain ⟨w, hw, hassignment⟩ := exists_word_of_mem_splitAssignments ha
  have hscripts := Word.scripts_subset_of_assignment? hassignment
  rw [Word.isPlain_iff.1 (h w hw)] at hscripts
  exact Word.isPlain_iff.2 (List.subset_nil.1 hscripts)

namespace Expand

open Law (obeys_pure)

variable {W : Type} {ctx : ExpandContext W}

/-- Leaves no diagnostics, also when it fails. -/
def silent : Law (Expanding W) ShellError :=
  .along (fun e e' => e'.diagnostics = e.diagnostics) (fun _ => rfl) fun _ _ _ h h' => h'.trans h

/-- Without substitutions an expansion has nothing to report. -/
theorem silent_fragments {w : Word} (h : w.isPlain) : silent.Obeys (fragments ctx w) := by
  refine Law.obeys_iff_keeps.2 fun e => keeps_fragments ⟨fun _ h => h, fun _ _ h => h⟩ ?_
  rw [Word.isPlain_iff.1 h]
  exact List.forall_mem_nil _

variable [Workspace W]

/-- A pattern that finds nothing is no reason to report. -/
theorem silent_field (cwd : String) (f : Field) : silent.Obeys (field cwd f : ExpandM W _) := by
  unfold field
  split
  · exact obeys_pure _
  · exact fun _ => rfl

theorem silent_words {ws : List Word} (h : ∀ w ∈ ws, w.isPlain) : silent.Obeys (words ctx ws) := by
  refine (Law.Obeys.mapM_of_mem fun w hw => ?_).bind fun _ => obeys_pure _
  exact (silent_fragments (h w hw)).bind fun _ =>
    (Law.Obeys.mapM (silent_field _) _).bind fun _ => obeys_pure _

end Expand

/-- Words that run no script leave no diagnostics. -/
theorem Run.diagnostics_of_expansion {W : Type} [Workspace W] {substitute : Substitute W}
    {words : List Word} (hplain : ∀ w ∈ words, w.isPlain) {s s' : Session W}
    {values : List (String × String)} {argv : List String} {diagnostics : Bytes}
    (h : expansion substitute words s = (.ok ((values, argv), diagnostics), s')) :
    diagnostics = [] := by
  obtain ⟨hassignments, hwords⟩ := isPlain_of_splitAssignments hplain
  rw [expansion, expand, bind_apply_ok (show ShellM.state s = (.ok s.state, s) from rfl),
    ShellM.expanding] at h
  split at h
  · next hstep =>
    cases h
    refine (show Expand.silent.Obeys _ from ?_).ok hstep
    refine (Law.Obeys.mapM_of_mem fun a ha => ?_).bind fun _ =>
      (Expand.silent_words hwords).bind fun _ => Law.obeys_pure _
    exact ((Expand.silent_fragments (hassignments a ha)).bind fun _ => Law.obeys_pure _).bind
      fun _ => Law.obeys_pure _
  · cases h

end Sandshell
