import Sandshell.Proofs.Bundle.Inside
import Sandshell.Proofs.Script.Openings
import Sandshell.Proofs.Shell.Agreement
import Sandshell.Proofs.Shell.Fault

/-!
# Nesting of substitutions

A script in a substitution has its text from the script around it, never from what an expansion
gave. So from one level of substitutions to the next the texts get shorter, and hold fewer openings:
runs would have an end also if substitutions could be nested without limit, and they do not meet a
limit that is no less than the openings in their text.
-/

namespace Sandshell

open Relation (ReflTransGen)

/-! ## Texts in a script -/

/-- The scripts of a command are those in its words. -/
theorem Command.scripts_eq_flatMap (c : Command) : c.scripts = c.allWords.flatMap Word.scripts := by
  rw [scripts, allWords, List.flatMap_append]
  congr 1
  induction c.redirections with
  | nil => rfl
  | cons r rest ih =>
    rw [List.flatMap_cons, ih, List.filterMap_cons, Redirection.scripts]
    cases r.target? <;> rfl

namespace Script

variable {text inner : String} {ss : Script} {w : Word}

/-- The pieces of all words in a script, with all below them. -/
def pieces (ss : Script) : List Piece :=
  (words ss).flatMap Word.pieces

/-- The scripts in a script are those of its substitutions. -/
theorem mem_scripts_iff : inner ∈ scripts ss ↔ .substitution inner ∈ pieces ss := by
  have hscripts : scripts ss = (words ss).flatMap Word.scripts := by
    rw [scripts, words, List.flatMap_assoc, funext Command.scripts_eq_flatMap]
  rw [hscripts, pieces, List.mem_flatMap, List.mem_flatMap]
  exact exists_congr fun w => and_congr_right fun _ => Word.mem_scripts_iff

/-- A word that a script expands: one of its own, or the value of an assignment among them. -/
def Expands (ss : Script) (w : Word) : Prop :=
  w ∈ words ss ∨ ∃ assignment ∈ words ss, ∃ name, assignment.assignment? = some (name, w)

theorem Expands.pieces_subset (h : Expands ss w) : w.pieces ⊆ pieces ss := by
  obtain hw | ⟨assignment, hassignment, name, hvalue⟩ := h
  · exact fun p hp => List.mem_flatMap.2 ⟨w, hw, hp⟩
  · exact fun p hp => List.mem_flatMap.2
      ⟨assignment, hassignment, Word.pieces_subset_of_assignment? hvalue hp⟩

theorem Expands.scripts_subset (h : Expands ss w) : w.scripts ⊆ scripts ss :=
  fun _ hinner => mem_scripts_iff.2 (h.pieces_subset (Word.mem_scripts_iff.1 hinner))

/-- What the pieces of a script run or expand is spelled where no more counts than in its text. -/
theorem exists_isSpelled_of_parse (h : parse text = .ok ss) {p : Piece} (hp : p ∈ pieces ss) :
    ∃ s, p.IsSpelled s ∧ ∀ f, Counts f → f s ≤ f text.toList := by
  obtain ⟨w, hw, hp⟩ := List.mem_flatMap.1 hp
  obtain ⟨part, hpart, hp⟩ := List.mem_flatMap.1 hp
  rw [WordPart.pieces] at hp
  split at hp
  · exact absurd hp List.not_mem_nil
  · next hquote =>
    exact ⟨part.text.toList, Piece.isSpelled_of_scan hp, fun f hf =>
      count_le_of_parse hf h hw hpart hquote⟩

/-- A script inside a text is shorter. -/
theorem length_lt_of_mem_scripts (h : parse text = .ok ss) (hinner : inner ∈ scripts ss) :
    inner.length < text.length := by
  obtain ⟨s, hspelled, hcount⟩ := exists_isSpelled_of_parse h (mem_scripts_iff.1 hinner)
  have hlength := Nat.le_trans (List.IsInfix.length_le hspelled) (hcount _ counts_length)
  simp only [List.length_append, List.length_cons, String.length_toList] at hlength
  omega

/-- So is a default. -/
theorem exists_length_lt_of_mem_pieces (h : parse text = .ok ss) {p : Parameter}
    {default : List Piece} (hp : .parameterOr p default ∈ pieces ss) :
    ∃ s, default = Piece.scan s ∧ s.length < text.length := by
  obtain ⟨s, ⟨t, hdefault, hspelled⟩, hcount⟩ := exists_isSpelled_of_parse h hp
  have hlength := Nat.le_trans hspelled.length_le (hcount _ counts_length)
  simp only [List.length_cons, String.length_toList] at hlength
  exact ⟨t, hdefault, by omega⟩

/-- It has an opening less. -/
theorem openings_lt_of_mem_scripts (h : parse text = .ok ss) (hinner : inner ∈ scripts ss) :
    openings inner.toList < openings text.toList := by
  obtain ⟨s, hspelled, hcount⟩ := exists_isSpelled_of_parse h (mem_scripts_iff.1 hinner)
  have hs := counts_openings.le_of_infix hspelled
  have htext := hcount _ counts_openings
  have hinside : openings inner.toList ≤ openings ('(' :: inner.toList ++ [')']) :=
    counts_openings.le_of_infix (List.infix_append ['('] inner.toList [')'])
  have hopening : openings ('$' :: '(' :: inner.toList ++ [')'])
      = 1 + openings ('(' :: inner.toList ++ [')']) := rfl
  omega

/-- A script that runs inside so many substitutions of another one. -/
inductive Nested (ss : Script) : Nat → Script → Prop
  | itself : Nested ss 0 ss
  | inside {level : Nat} {outer script : Script} {inner : String} (h : Nested ss level outer)
      (hinner : inner ∈ scripts outer) (hparse : parse inner = .ok script) :
      Nested ss (level + 1) script

/-- At each level there is one opening less. -/
theorem Nested.openings_le (h : parse text = .ok ss) {level : Nat} {script : Script}
    (hnested : Nested ss level script) :
    ∃ inner, parse inner = .ok script
      ∧ openings inner.toList + level ≤ openings text.toList := by
  induction hnested with
  | itself => exact ⟨text, h, Nat.le_refl _⟩
  | inside _ hinner hparse ih =>
    obtain ⟨outer, houter, hle⟩ := ih
    have hlt := openings_lt_of_mem_scripts houter hinner
    exact ⟨_, hparse, by omega⟩

end Script

/-! ## Levels -/

namespace Shell

variable {W : Type} [Workspace W]

/-- What substitutions stand for if `inside` says what those inside them stand for. -/
def deeper (sh : Shell W) (inside : Run.Substitute W) : Run.Substitute W := fun state text =>
  match Script.parse text with
  | .error e => throw (.expansion (.script e.message))
  | .ok script => fun e =>
    match Run.script sh inside [] script ⟨e.workspace, state⟩ with
    | (.error error, s) => (.error error, { e with workspace := s.workspace })
    | (.ok outcome, s) =>
      (.ok (withoutLastLineFeed outcome.stdout.lossyText),
        ⟨s.workspace, e.diagnostics ++ outcome.stderr⟩)

variable (sh : Shell W)

theorem substitute_succ (depth : Nat) :
    sh.substitute (depth + 1) = sh.deeper (sh.substitute depth) := rfl

/-- One level down runs alike where the scripts there do. -/
theorem deeper_eq_of_agree {inside inside' : Run.Substitute W} {text : String}
    (h : ∀ ss, Script.parse text = .ok ss → Run.AgreeOn inside inside' (Script.scripts ss))
    (state : ShellState) : sh.deeper inside state text = sh.deeper inside' state text := by
  unfold deeper
  split
  · rfl
  · next script hparse => rw [Run.script_eq_of_agree rfl [] script (h script hparse)]

/-- Where there are more levels than openings, it does not matter what stands below them. -/
theorem eq_of_openings_lt (levels levels' : Nat → Run.Substitute W)
    (hlevels : ∀ n, levels (n + 1) = sh.deeper (levels n))
    (hlevels' : ∀ n, levels' (n + 1) = sh.deeper (levels' n)) {n m : Nat} {text : String}
    (hn : openings text.toList < n) (hm : openings text.toList < m) (state : ShellState) :
    levels n state text = levels' m state text := by
  induction n generalizing m text state with
  | zero => exact absurd hn (Nat.not_lt_zero _)
  | succ n ih =>
    cases m with
    | zero => exact absurd hm (Nat.not_lt_zero _)
    | succ m =>
      rw [hlevels, hlevels']
      -- what runs inside has fewer openings, so that levels are left for it on both sides
      refine sh.deeper_eq_of_agree (fun ss hparse state inner hinner => ?_) state
      have hfewer := Script.openings_lt_of_mem_scripts hparse hinner
      exact ih (by omega) (by omega) state

/-- What substitutions stand for where they may be nested without limit: inside others they stand for
the same. -/
def IsUnlimited (unlimited : Run.Substitute W) : Prop :=
  sh.deeper unlimited = unlimited

variable {sh} in
/-- As many levels as there are openings are as good as no limit. -/
theorem IsUnlimited.eq_substitute {unlimited : Run.Substitute W} (h : sh.IsUnlimited unlimited)
    {depth : Nat} {text : String} (hdepth : openings text.toList < depth) (state : ShellState) :
    unlimited state text = sh.substitute depth state text :=
  sh.eq_of_openings_lt (fun _ => unlimited) sh.substitute (fun _ => h.symm) sh.substitute_succ
    hdepth hdepth state

/-- Without a limit there is still one thing, and one only, that substitutions stand for. -/
theorem existsUnique_isUnlimited : ∃! unlimited, sh.IsUnlimited unlimited := by
  refine ⟨fun state text => sh.substitute (openings text.toList + 1) state text, ?_,
    fun unlimited h => ?_⟩
  · -- each text has as many levels as it needs, and what runs inside it needs fewer
    funext state text
    rw [substitute_succ]
    refine sh.deeper_eq_of_agree (fun ss hparse state inner hinner => ?_) state
    have hfewer := Script.openings_lt_of_mem_scripts hparse hinner
    exact sh.eq_of_openings_lt _ _ sh.substitute_succ sh.substitute_succ (Nat.lt_succ_self _)
      hfewer state
  · funext state text
    exact h.eq_substitute (Nat.lt_succ_self _) state

/-- The shell with another limit on how deep substitutions may be nested. -/
def withNesting (limit : Nat) : Shell W :=
  { sh with config := { sh.config with maxSubstitutionDepth := limit } }

theorem named_withNesting (limit : Nat) : Run.named (sh.withNesting limit) = Run.named sh :=
  Run.named_config rfl rfl fun _ _ => rfl

/-- The limit is no part of how one level runs. -/
theorem deeper_withNesting (limit : Nat) : (sh.withNesting limit).deeper = sh.deeper := by
  funext inside state text
  unfold deeper
  split
  · rfl
  · next script _ =>
    rw [Run.script_eq_of_agree (sh.named_withNesting limit) [] script fun _ _ _ => rfl]

/-- A limit that is no less than the openings in a text is as good as none. -/
theorem runScript_withNesting {text : String} {ss : Script} (h : Script.parse text = .ok ss)
    {limit : Nat} (hlimit : openings text.toList ≤ limit) {unlimited : Run.Substitute W}
    (hunlimited : sh.IsUnlimited unlimited) :
    (sh.withNesting limit).runScript ss = Run.script sh unlimited [] ss := by
  have hdeeper : (sh.withNesting limit).IsUnlimited unlimited := by
    rw [IsUnlimited, deeper_withNesting, hunlimited]
  refine Run.script_eq_of_agree (sh.named_withNesting limit) [] ss fun state inner hinner => ?_
  have hfewer := Script.openings_lt_of_mem_scripts h hinner
  exact (hdeeper.eq_substitute (Nat.lt_of_lt_of_le hfewer hlimit) state).symm

end Shell

/-! ## Failures of nesting -/

namespace Expand

variable {W : Type}

/-- Wherever an expansion begins, it does not fail because substitutions are nested too deep. -/
abbrev shallow : Invariant (Expanding W) ShellError where
  holds _ := True
  fails e _ := ∀ limit, e ≠ .expansion (.depthExceeded limit)

theorem mayStop_shallow : MayStop (shallow (W := W)) where
  unterminated _ _ := nofun
  bad _ _ _ := nofun

/-- Matching a field does not fail. -/
theorem shallow_field [Workspace W] (cwd : String) (f : Field) :
    shallow.Keeps (field cwd f : ExpandM W _) fun _ => True := by
  unfold field
  split
  · exact Invariant.keeps_pure trivial
  · exact fun _ _ => ⟨trivial, trivial⟩

end Expand

namespace Shell

variable {W : Type} [Workspace W] (sh : Shell W)

/-- Failures of nesting inside a substitution do not get out of a stage there. -/
theorem shallow_substitute_succ (depth : Nat) (state : ShellState) (text : String) :
    Expand.shallow.Keeps (sh.substitute (depth + 1) state text) fun _ => True := by
  rw [substitute]
  split
  · exact Invariant.keeps_throw fun _ _ _ h => by cases h
  · next script _ =>
    intro e _
    dsimp only
    split
    · next error s hrun =>
      -- only a fatal failure ends a script, and this one is none
      rintro limit rfl
      cases (Run.fatal_script [] script).error hrun
    · exact ⟨trivial, trivial⟩

/-- Under a limit no less than the openings in a text, substitutions at each level may go one level
deeper. -/
theorem shallow_substitute_of_nested {text : String} {ss script : Script} {level limit : Nat}
    (h : Script.parse text = .ok ss) (hlimit : openings text.toList ≤ limit)
    (hnested : Script.Nested ss level script) {inner : String}
    (hinner : inner ∈ Script.scripts script) (state : ShellState) :
    Expand.shallow.Keeps (sh.substitute (limit - level) state inner) fun _ => True := by
  obtain ⟨outer, houter, hle⟩ := hnested.openings_le h
  -- the text at this level still holds an opening
  have hfewer := Script.openings_lt_of_mem_scripts houter hinner
  obtain ⟨depth, hdepth⟩ := Nat.exists_eq_succ_of_ne_zero (show limit - level ≠ 0 by omega)
  rw [hdepth]
  exact sh.shallow_substitute_succ depth state inner

/-- The text of a script bounds what is nested in it. -/
structure IsBoundedBy (ss : Script) (text : String) : Prop where
  /-- A script in a substitution is shorter than the text. -/
  script_length_lt : ∀ inner ∈ Script.scripts ss, inner.length < text.length
  /-- So is what an expansion expands by default. -/
  default_length_lt : ∀ w, Script.Expands ss w → ∀ p default, .parameterOr p default ∈ w.pieces →
    ∃ s, default = Piece.scan s ∧ s.length < text.length
  /-- Whatever expansions give, it is never run: a run looks at substitutions nowhere but at the
  texts that are spelled in its script. -/
  run_eq : ∀ inside inside' : Run.Substitute W, Run.AgreeOn inside inside' (Script.scripts ss) →
    ∀ stdin, Run.script sh inside stdin ss = Run.script sh inside' stdin ss
  /-- Nor is it expanded: an expansion looks at no parameter or substitution but those that are
  spelled in its word. -/
  expand_eq : ∀ w, Script.Expands ss w → ∀ ctx ctx' : ExpandContext W,
    ctx.Agree ctx' w.parameters w.scripts →
      Expand.word ctx w = Expand.word ctx' w ∧ Expand.toText ctx w = Expand.toText ctx' w
  /-- There are no more levels of substitutions than openings in the text. -/
  level_le : ∀ level script, Script.Nested ss level script → level ≤ openings text.toList
  /-- Under a limit no less than these, the script runs as it does without any limit. -/
  run_eq_unlimited : ∀ limit, openings text.toList ≤ limit → ∀ unlimited,
    sh.IsUnlimited unlimited →
      (sh.withNesting limit).runScript ss = Run.script sh unlimited [] ss
  /-- And then no expansion at any level fails because of the limit. -/
  expand_ne : ∀ limit, openings text.toList ≤ limit → ∀ level script,
    Script.Nested ss level script → ∀ w, Script.Expands script w → ∀ state e exceeded,
      let ctx := ⟨state, (sh.withNesting limit).substitute (limit - level) state⟩
      (Expand.word ctx w e).1 ≠ .error (.expansion (.depthExceeded exceeded))
        ∧ (Expand.toText ctx w e).1 ≠ .error (.expansion (.depthExceeded exceeded))

/-- It does not change which states a shell can come to, either. -/
theorem touches_withNesting (limit : Nat) : (sh.withNesting limit).Touches = sh.Touches := by
  funext w w'
  refine propext ⟨fun h => ?_, fun h => ?_⟩
  · cases h with
    | peeks h => exact .peeks h
    | writes path data => exact .writes path data w
    | delegates hd request _ hanswer =>
      exact .delegates (show sh.delegate? = some _ from hd) request w hanswer
  · cases h with
    | peeks h => exact .peeks h
    | writes path data => exact .writes path data w
    | delegates hd request _ hanswer =>
      exact .delegates (show (sh.withNesting limit).delegate? = some _ from hd) request w hanswer

variable {sh} in
/-- Whatever the limit on nesting is, scripts end where all calls do. -/
theorem EndsFrom.execute_ne {w : W} (h : sh.EndsFrom w) (limit : Nat) (text : String)
    (state : ShellState) :
    ((sh.withNesting limit).execute text ⟨w, state⟩).1 ≠ .error (.workspace .endless) := by
  intro hendless
  obtain ⟨v, hreach, hhangs⟩ := (sh.withNesting limit).hangs_of_execute hendless
  rw [touches_withNesting] at hreach
  exact h v hreach hhangs

/-- With a delegate whose calls end and that leaves searches to the shell, scripts end wherever calls
lead exactly if searches do. -/
theorem forall_execute_ne_iff (hgrep : sh.delegated "grep" = false)
    (hrg : sh.delegated "rg" = false)
    (htotal : ∀ d, sh.delegate? = some d → ∀ request w,
      (d.run request w).1 ≠ .error (.workspace .endless)) (w : W) :
    (∀ v, ReflTransGen sh.Touches w v → ∀ limit text state,
        ((sh.withNesting limit).execute text ⟨v, state⟩).1 ≠ .error (.workspace .endless))
      ↔ ∀ v, ReflTransGen sh.Touches w v → ¬ Workspace.SearchesForever v := by
  constructor
  · intro hends v hreach hforever
    obtain ⟨text, state, -, hendless⟩ :=
      (sh.withNesting 0).exists_execute_eq_endless hgrep hrg hforever
    exact hends v hreach 0 text state hendless
  · intro hsearches v hreach limit text state
    have hends : sh.EndsFrom v := by
      rintro u hu (hforever | ⟨d, request, hd, hendless⟩)
      · exact hsearches u (hreach.trans hu) hforever
      · exact htotal d hd request u hendless
    exact hends.execute_ne limit text state

/-- All scripts in a text that parses nest less deeply than it has openings. -/
theorem isBoundedBy_of_parse {text : String} {ss : Script} (h : Script.parse text = .ok ss) :
    sh.IsBoundedBy ss text := by
  constructor
  case script_length_lt => exact fun inner hinner => Script.length_lt_of_mem_scripts h hinner
  case default_length_lt =>
    exact fun w hw p default hp => Script.exists_length_lt_of_mem_pieces h (hw.pieces_subset hp)
  case run_eq => exact fun inside inside' hagree stdin => Run.script_eq_of_agree rfl stdin ss hagree
  case expand_eq =>
    exact fun w _ ctx ctx' hagree =>
      ⟨Expand.word_eq_of_agree hagree, Expand.toText_eq_of_agree hagree⟩
  case level_le =>
    intro level script hnested
    obtain ⟨inner, -, hle⟩ := hnested.openings_le h
    omega
  case run_eq_unlimited =>
    exact fun limit hlimit unlimited hunlimited => sh.runScript_withNesting h hlimit hunlimited
  case expand_ne =>
    intro limit hlimit level script hnested w hw state e exceeded
    have hscripts : ∀ inner ∈ w.scripts, Expand.shallow.Keeps
        ((sh.withNesting limit).substitute (limit - level) state inner) fun _ => True :=
      fun inner hinner => (sh.withNesting limit).shallow_substitute_of_nested h hlimit hnested
        (hw.scripts_subset hinner) state
    have hne : ∀ {α : Type} {step : ExpandM W α}, Expand.shallow.Keeps step (fun _ => True) →
        (step e).1 ≠ .error (.expansion (.depthExceeded exceeded)) := by
      intro α step hstep herror
      exact hstep.error trivial (Prod.ext herror rfl) exceeded rfl
    exact ⟨hne (Expand.keeps_word Expand.mayStop_shallow hscripts (Expand.shallow_field _)),
      hne (Expand.keeps_toText Expand.mayStop_shallow hscripts)⟩

/-- Nesting makes no run endless: even where substitutions may be nested without limit, what they
stand for is determined. For what a script runs inside it is bounded by its text, and a limit that is
no less than the openings in the text is never met. So under every limit a script ends if all
searches and all calls of the delegate do, wherever calls lead. Where the calls of the delegate end,
and it leaves searches to the shell, all scripts end exactly if all searches do. -/
theorem nesting_is_bounded :
    (∃! unlimited, sh.IsUnlimited unlimited)
      ∧ (∀ text ss, Script.parse text = .ok ss → sh.IsBoundedBy ss text)
      ∧ (∀ w, sh.EndsFrom w → ∀ limit text state,
        ((sh.withNesting limit).execute text ⟨w, state⟩).1 ≠ .error (.workspace .endless))
      ∧ (sh.delegated "grep" = false → sh.delegated "rg" = false →
        (∀ d, sh.delegate? = some d → ∀ request w,
          (d.run request w).1 ≠ .error (.workspace .endless)) →
        ∀ w, (∀ v, ReflTransGen sh.Touches w v → ∀ limit text state,
            ((sh.withNesting limit).execute text ⟨v, state⟩).1 ≠ .error (.workspace .endless))
          ↔ ∀ v, ReflTransGen sh.Touches w v → ¬ Workspace.SearchesForever v) := by
  refine ⟨sh.existsUnique_isUnlimited, fun text ss h => sh.isBoundedBy_of_parse h, ?_, ?_⟩
  · exact fun w h limit text state => h.execute_ne limit text state
  · exact fun hgrep hrg htotal w => sh.forall_execute_ne_iff hgrep hrg htotal w

/-- Two levels of substitutions, the inner one in a default. -/
def twice : String := "echo $(echo $\x7bx:-$(echo a)\x7d b)"

/-- Two openings need a limit of two, and no more than that. With commands of a bundle scripts on an
empty tree end as well. -/
theorem nesting_is_bounded_twice : openings twice.toList = 2
    ∧ ((({} : Shell Tree).withNesting 1).execute twice ⟨.empty, {}⟩).1 = .ok ⟨0, [10],
      Bytes.ofString "command substitution nested deeper than 1 levels\n", false, false⟩
    ∧ (∀ limit, 2 ≤ limit → ((({} : Shell Tree).withNesting limit).execute twice ⟨.empty, {}⟩).1
      = .ok ⟨0, Bytes.ofString "a b\n", [], false, false⟩)
    ∧ (∀ limit, ((({} : Shell Tree).withNesting limit).execute twice ⟨.empty, {}⟩).1
      ≠ .error (.workspace .endless))
    ∧ ∀ (b : Bridge) limit text state,
      ((({ delegate? := some b.delegate } : Shell Tree).withNesting limit).execute text
        ⟨.empty, state⟩).1 ≠ .error (.workspace .endless) := by
  have hopenings : openings twice.toList = 2 := by decide
  obtain ⟨ss, hparse⟩ := exists_of_isOk (show (Script.parse twice).isOk by decide +kernel)
  obtain ⟨⟨unlimited, hunlimited, -⟩, hbounded, hends, -⟩ := nesting_is_bounded ({} : Shell Tree)
  have hruns := (hbounded twice ss hparse).run_eq_unlimited
  rw [hopenings] at hruns
  have hempty : ({} : Shell Tree).EndsFrom Tree.empty := by
    refine Tree.wellFormed_empty.hasNormalKeys.endsFrom fun d hd => ?_
    cases hd
  have hbridge (b : Bridge) :
      ({ delegate? := some b.delegate } : Shell Tree).EndsFrom Tree.empty :=
    Tree.wellFormed_empty.hasNormalKeys.endsFrom_of_bridge rfl
  refine ⟨hopenings, by decide +kernel, fun limit hlimit => ?_,
    fun limit => hends Tree.empty hempty limit twice {},
    fun b => (nesting_is_bounded { delegate? := some b.delegate }).2.2.1 Tree.empty (hbridge b)⟩
  have htwo : ((({} : Shell Tree).withNesting 2).execute twice ⟨.empty, {}⟩).1
      = .ok ⟨0, Bytes.ofString "a b\n", [], false, false⟩ := by decide +kernel
  rw [execute_of_parse _ hparse, hruns _ (Nat.le_refl 2) unlimited hunlimited] at htwo
  rw [execute_of_parse _ hparse, hruns limit hlimit unlimited hunlimited]
  exact htwo

/-- Under no limit does a search end that goes on for ever. -/
theorem not_forall_execute_ne : ¬ ∀ (sh : Shell Tree) (limit : Nat) (text : String)
    (s : Session Tree), sh.delegate? = none →
      ((sh.withNesting limit).execute text s).1 ≠ .error (.workspace .endless) := by
  intro hall
  obtain ⟨text, state, -, hendless⟩ :=
    exists_execute_eq_endless (({} : Shell Tree).withNesting 0) rfl rfl
      Tree.searchesForever_slashed
  exact hall {} 0 text ⟨Tree.slashed, state⟩ rfl hendless

end Shell

end Sandshell
