import Mathlib.Logic.Function.Iterate
import Sandshell.Proofs.Shell.Quoting
import Sandshell.Proofs.Shell.Simple

/-!
# Comparisons of strings

A test of two strings is told from the other tests by the number of its arguments, after exclamation
marks at the start are taken off. So the operands can be any strings but one: an exclamation mark on
the left is taken off too.
-/

namespace Sandshell

/-! ## Commands with quoted arguments -/

section

variable {W : Type} [Workspace W] {sh : Shell W} {s s' : Session W}

/-- Single-quoted words run the command that the first one names. -/
theorem Run.simple_of_isSingleQuoted {substitute : Substitute W} {ws : List Word} {name : String}
    {args : List String} (h : ∀ w ∈ ws, w.IsSingleQuoted) (htext : ws.map Word.literal = name :: args)
    (stdin : Bytes) :
    simple sh substitute ws stdin s = named sh [] name args stdin s := by
  have hwords := Expand.words_of_isSingleQuoted ⟨s.state, substitute s.state⟩ ⟨s.workspace, []⟩ h
  rw [htext] at hwords
  refine simple_of_words ?_ hwords stdin
  rw [splitAssignments_of_isSingleQuoted h]

/-- A command line is parsed to one simple command with the given words. -/
theorem Quoting.exists_parse_commandLine (name : String) (args : List String) :
    ∃ ws, Script.parse (commandLine (name :: args)) = .ok [.chain [.simple ws []] []]
      ∧ (∀ w ∈ ws, w.IsSingleQuoted) ∧ ws.map Word.literal = name :: args := by
  obtain ⟨ws, hscan, hquoted, htext⟩ := scan_commandLine name args
  refine ⟨ws, ?_, hquoted, htext⟩
  rw [Script.parse, hscan]
  refine Script.ofTokens_map_word fun hnil => ?_
  rw [hnil] at htext
  cases htext

/-- A line of quoted strings is the command that the first string names with the others as its
arguments. -/
theorem Shell.execute_commandLine {name : String} {args : List String} {outcome : CommandOutcome}
    (h : Run.named sh [] name args [] s = (.ok outcome, s')) :
    (sh.execute (Quoting.commandLine (name :: args)) s).1
      = .ok (.ofOutcome sh.config.limits outcome) := by
  obtain ⟨ws, hparse, hquoted, htext⟩ := Quoting.exists_parse_commandLine name args
  exact sh.execute_lone hparse ((Run.simple_of_isSingleQuoted hquoted htext []).trans h)

/-- It fails as a script if the command has a fatal failure. -/
theorem Shell.execute_commandLine_of_isFatal {name : String} {args : List String} {e : ShellError}
    (he : e.isFatal = true) (h : Run.named sh [] name args [] s = (.error e, s')) :
    sh.execute (Quoting.commandLine (name :: args)) s = (.error e, s') := by
  obtain ⟨ws, hparse, hquoted, htext⟩ := Quoting.exists_parse_commandLine name args
  exact sh.execute_lone_of_isFatal he hparse
    ((Run.simple_of_isSingleQuoted hquoted htext []).trans h)

/-- A builtin comes before what the delegate provides under its name. -/
theorem Run.named_of_builtin {name : String} {b : Builtin} (h : Builtin.named? name = some b)
    (values : List (String × String)) (args : List String) (stdin : Bytes) :
    named sh values name args stdin s = b.run sh.delegated args s := by
  rw [named, bind_apply_ok (show ShellM.state s = (.ok s.state, s) from rfl), Provider.find?, h]

end

/-! ## Negations -/

namespace Condition

variable {args : List String} {l r : String}

/-- A negation turns the answer round. -/
theorem takeNegations_cons (h : args ≠ []) :
    takeNegations ("!" :: args) = (!(takeNegations args).1, (takeNegations args).2) := by
  obtain ⟨next, rest, rfl⟩ := List.exists_cons_of_ne_nil h
  rw [takeNegations]

/-- What is no negation is left. -/
theorem takeNegations_of_ne (h : l ≠ "!") (rest : List String) :
    takeNegations (l :: rest) = (false, l :: rest) := by
  rw [takeNegations]
  intro next more heq
  exact absurd (List.cons.inj heq).1 h

/-- Each exclamation mark is taken off, by induction on their number. -/
theorem takeNegations_replicate (n : Nat) (h : args ≠ []) :
    takeNegations (List.replicate n "!" ++ args)
      = (not^[n] (takeNegations args).1, (takeNegations args).2) := by
  induction n with
  | zero => rfl
  | succ n ih =>
    have hne : List.replicate n "!" ++ args ≠ [] := List.append_ne_nil_of_right_ne_nil _ h
    rw [List.replicate_succ, List.cons_append, takeNegations_cons hne, ih,
      Function.iterate_succ_apply']

theorem bne_iterate_not (n : Nat) (value : Bool) : (value != not^[n] false) = not^[n] value := by
  induction n with
  | zero => exact Bool.bne_false value
  | succ n ih =>
    rw [Function.iterate_succ_apply', Function.iterate_succ_apply', ← ih]
    cases value <;> simp

end Condition

/-! ## Comparisons -/

/-- A comparison of strings. -/
inductive StringComparison where
  | equal
  | different
deriving DecidableEq, Repr, Inhabited

namespace StringComparison

/-- How a comparison is written. -/
def operator : StringComparison → String
  | equal => "="
  | different => "!="

/-- What a comparison asks. -/
def holds : StringComparison → String → String → Bool
  | equal, l, r => l = r
  | different, l, r => l ≠ r

/-- The arguments of a comparison with exclamation marks before it. -/
def arguments (c : StringComparison) (n : Nat) (l r : String) : List String :=
  List.replicate n "!" ++ [l, c.operator, r]

/-- The answer to a comparison that is negated as often. -/
def answer (c : StringComparison) (n : Nat) (l r : String) : CommandOutcome :=
  .code (if not^[n] (c.holds l r) then 0 else 1)

/-- The complaint about an operator that is taken for one of a single operand. -/
def complaint (c : StringComparison) : CommandOutcome :=
  .fail 2 ("test: " ++ (ConditionError.unaryExpected c.operator).message)

/-- No comparison is spelled like a negation. -/
theorem operator_ne (c : StringComparison) : c.operator ≠ "!" := by
  cases c <;> decide

/-- An operator between two operands decides. -/
theorem binary_operator (c : StringComparison) (l r : String) :
    Condition.binary l c.operator r = .ok (.decided (c.holds l r)) := by
  cases c <;> rfl

/-- With one operand only it does not. -/
theorem unary_operator (c : StringComparison) (operand : String) :
    Condition.unary c.operator operand = .error (.unaryExpected c.operator) := by
  cases c <;> rfl

/-- What a comparison comes to as a command. -/
def outcome (c : StringComparison) (n : Nat) (l r : String) : CommandOutcome :=
  if l = "!" then c.complaint else c.answer n l r

/-- The outcome is the answer unless the first operand looks like a negation. -/
theorem exitCode_outcome_iff (c : StringComparison) (n : Nat) (l r : String) :
    (c.outcome n l r).exitCode = (c.answer n l r).exitCode ↔ l ≠ "!" := by
  have hcodes : c.complaint.exitCode ≠ (c.answer n l r).exitCode := by
    show (2 : Int) ≠ if _ then 0 else 1
    split <;> decide
  by_cases hl : l = "!"
  · rw [outcome, if_pos hl]
    exact iff_of_false hcodes (not_not_intro hl)
  · rw [outcome, if_neg hl]
    exact iff_of_true rfl hl

variable {W : Type} [Workspace W]

/-- A comparison is decided by its operands, unless an exclamation mark on the left is taken off. -/
theorem outcome_arguments (c : StringComparison) (n : Nat) (l r cwd : String) (w : W) :
    Condition.outcome cwd (c.arguments n l r) w
      = (.ok (c.outcome n l r), w) := by
  rw [Condition.outcome, outcome, arguments, Condition.takeNegations_replicate n (List.cons_ne_nil _ _)]
  by_cases hl : l = "!"
  · subst hl
    rw [Condition.takeNegations_cons (List.cons_ne_nil _ _),
      Condition.takeNegations_of_ne c.operator_ne, if_pos rfl]
    dsimp only
    rw [Condition.ofArguments, unary_operator]
    rfl
  · rw [Condition.takeNegations_of_ne hl, if_neg hl]
    dsimp only
    rw [Condition.ofArguments, binary_operator]
    show (Except.ok _, w) = _
    rw [Condition.bne_iterate_not]
    rfl

/-- The builtin gives this outcome and leaves the session as it is. -/
theorem run_test (c : StringComparison) (n : Nat) (l r : String) (delegated : String → Bool)
    (s : Session W) :
    Builtin.test.run delegated (c.arguments n l r) s = (.ok (c.outcome n l r), s) := by
  rw [Builtin.run, Builtin.testArguments,
    bind_apply_ok (show ShellM.state s = (.ok s.state, s) from rfl), ShellM.onWorkspace,
    ShellM.onWorkspaceOr, outcome_arguments]

/-- Written with brackets it does the same. -/
theorem run_bracket (c : StringComparison) (n : Nat) (l r : String) (delegated : String → Bool)
    (s : Session W) :
    Builtin.bracket.run delegated (c.arguments n l r ++ ["]"]) s = (.ok (c.outcome n l r), s) := by
  rw [Builtin.run, List.getLast?_concat, if_pos rfl, List.dropLast_concat]
  exact c.run_test n l r delegated s

/-- A comparison of two strings is decided by them, and negated once for each exclamation mark before
it, exactly if the string on the left is not an exclamation mark itself: as a builtin under both
names, and as a line of quoted strings that a shell runs. -/
theorem compares_iff (c : StringComparison) (n : Nat) (l r : String) (sh : Shell W) (s : Session W) :
    (Builtin.test.run sh.delegated (c.arguments n l r) s = (.ok (c.answer n l r), s) ↔ l ≠ "!")
    ∧ (Builtin.bracket.run sh.delegated (c.arguments n l r ++ ["]"]) s = (.ok (c.answer n l r), s)
      ↔ l ≠ "!")
    ∧ ((sh.execute (Quoting.commandLine ("test" :: c.arguments n l r)) s).1
        = .ok (.ofOutcome sh.config.limits (c.answer n l r)) ↔ l ≠ "!")
    ∧ ((sh.execute (Quoting.commandLine ("[" :: (c.arguments n l r ++ ["]"]))) s).1
        = .ok (.ofOutcome sh.config.limits (c.answer n l r)) ↔ l ≠ "!") := by
  have hdecided : c.outcome n l r = c.answer n l r ↔ l ≠ "!" :=
    ⟨fun h => (c.exitCode_outcome_iff n l r).1 (congrArg _ h), fun hl => if_neg hl⟩
  have hstep : ((.ok (c.outcome n l r), s) : Except ShellError CommandOutcome × Session W)
      = (.ok (c.answer n l r), s) ↔ l ≠ "!" := by
    rw [Prod.mk.injEq, Except.ok.injEq, hdecided]
    exact and_iff_left rfl
  have hresult : (.ok (.ofOutcome sh.config.limits (c.outcome n l r)) :
      Except ShellError ExecutionResult) = .ok (.ofOutcome sh.config.limits (c.answer n l r))
        ↔ l ≠ "!" := by
    rw [Except.ok.injEq]
    exact ⟨fun h => (c.exitCode_outcome_iff n l r).1 (congrArg ExecutionResult.exitCode h),
      fun hl => congrArg _ (hdecided.2 hl)⟩
  have htest : Run.named sh [] "test" (c.arguments n l r) [] s = (.ok (c.outcome n l r), s) := by
    rw [Run.named_of_builtin (show Builtin.named? "test" = some .test from rfl), c.run_test]
  have hbracket : Run.named sh [] "[" (c.arguments n l r ++ ["]"]) [] s
      = (.ok (c.outcome n l r), s) := by
    rw [Run.named_of_builtin (show Builtin.named? "[" = some .bracket from rfl), c.run_bracket]
  refine ⟨?_, ?_, ?_, ?_⟩
  · rw [c.run_test, hstep]
  · rw [c.run_bracket, hstep]
  · rw [Shell.execute_commandLine htest, hresult]
  · rw [Shell.execute_commandLine hbracket, hresult]

/-- Operators are compared as any other string. -/
theorem compares_operators (s : Session W) :
    Builtin.test.run (fun _ => false) ["!", "!", "!", "-z", "=", "!="] s = (.ok (.code 0), s) :=
  (compares_iff .equal 3 "-z" "!=" {} s).1.2 (by decide)

/-- An exclamation mark is not found equal to itself. -/
theorem not_forall_compares : ¬ ∀ (c : StringComparison) (n : Nat) (l r : String) (s : Session Tree),
    Builtin.test.run (fun _ => false) (c.arguments n l r) s = (.ok (c.answer n l r), s) := by
  intro h
  have hsame := h .equal 0 "!" "!" ⟨.empty, {}⟩
  rw [run_test, Prod.mk.injEq, Except.ok.injEq] at hsame
  exact absurd (congrArg CommandOutcome.exitCode hsame.1) (by decide)

end StringComparison

end Sandshell
