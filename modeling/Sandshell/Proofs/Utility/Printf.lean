import Mathlib.Data.List.Basic
import Mathlib.Data.Nat.Init
import Sandshell.Utility.Printf

/-!
# Formats and their arguments

A pass over a format takes as many arguments as the format has conversions. So the passes cut the
arguments into groups of that size, and printing two lists of arguments together is printing one
after the other if the first one fills its groups.
-/

namespace Sandshell

namespace Bytes

theorem ofString_append (s s' : String) : ofString (s ++ s') = ofString s ++ ofString s' := by
  rw [ofString, String.toList_append, List.flatMap_append]
  rfl

end Bytes

namespace Printf

variable {format : List Directive} {args bs taken left : List String}

/-! ## What is printed -/

@[simp] theorem Printed.append_assoc (p p' p'' : Printed) :
    (p.append p').append p'' = p.append (p'.append p'') := by
  simp [append, String.append_assoc]

/-- Nothing is wrong with two outputs if nothing is wrong with each. -/
theorem Printed.err_append_eq_empty_iff (p p' : Printed) :
    (p.append p').err = "" ↔ p.err = "" ∧ p'.err = "" :=
  String.append_eq_empty_iff

/-- The outcome of what has been printed. -/
def Printed.outcome (p : Printed) : CommandOutcome :=
  .ofDiagnostics 1 p.out p.err

/-- The exit code is 1 exactly if there is a complaint. -/
theorem Printed.exitCode_outcome (p : Printed) : p.outcome.exitCode = 1 ↔ p.err ≠ "" := by
  rw [outcome, CommandOutcome.ofDiagnostics]
  by_cases herr : p.err = "" <;> simp [herr]

/-! ## One pass -/

/-- Stands for an argument. -/
def Directive.isConversion : Directive → Bool
  | .text _ => false
  | .string | .integer => true

/-- The number of conversions of a format. -/
def conversions (format : List Directive) : Nat :=
  format.countP Directive.isConversion

@[simp] theorem conversions_text (s : String) (rest : List Directive) :
    conversions (.text s :: rest) = conversions rest :=
  List.countP_cons_of_neg (by simp [Directive.isConversion])

@[simp] theorem conversions_string (rest : List Directive) :
    conversions (.string :: rest) = conversions rest + 1 :=
  List.countP_cons_of_pos rfl

@[simp] theorem conversions_integer (rest : List Directive) :
    conversions (.integer :: rest) = conversions rest + 1 :=
  List.countP_cons_of_pos rfl

/-- A pass leaves the arguments behind the conversions. -/
theorem pass_snd (format : List Directive) (args : List String) :
    (pass format args).2 = args.drop (conversions format) := by
  induction format generalizing args with
  | nil => rfl
  | cons directive rest ih =>
    cases directive with
    | text s =>
      rw [pass, conversions_text]
      exact ih args
    | string =>
      rw [pass, conversions_string, ← List.drop_tail]
      exact ih args.tail
    | integer =>
      rw [pass, conversions_integer, ← List.drop_tail]
      exact ih args.tail

/-- Arguments beyond those that a pass takes make no difference to it. -/
theorem pass_append_fst {as : List String} (h : conversions format ≤ as.length) (bs : List String) :
    (pass format (as ++ bs)).1 = (pass format as).1 := by
  induction format generalizing as with
  | nil => rfl
  | cons directive rest ih =>
    cases directive with
    | text s =>
      rw [conversions_text] at h
      exact congrArg (Printed.append ⟨s, ""⟩) (ih h)
    | string =>
      rw [conversions_string] at h
      obtain ⟨a, as, rfl⟩ := List.exists_cons_of_length_pos (Nat.zero_lt_of_lt h)
      exact congrArg (Printed.append ⟨a, ""⟩) (ih (Nat.le_of_succ_le_succ h))
    | integer =>
      rw [conversions_integer] at h
      obtain ⟨a, as, rfl⟩ := List.exists_cons_of_length_pos (Nat.zero_lt_of_lt h)
      exact congrArg (Printed.append (printInteger a)) (ih (Nat.le_of_succ_le_succ h))

/-- The text of a format without its conversions. -/
def literal (format : List Directive) : String :=
  String.join (format.map fun
    | .text s => s
    | _ => "")

/-- Without conversions a pass prints the format and takes no argument. -/
theorem pass_of_no_conversions (h : conversions format = 0) (args : List String) :
    (pass format args).1 = ⟨literal format, ""⟩ := by
  induction format generalizing args with
  | nil => rfl
  | cons directive rest ih =>
    cases directive with
    | text s =>
      rw [conversions_text] at h
      show Printed.append ⟨s, ""⟩ (pass rest args).1 = _
      rw [ih h, literal, literal, List.map_cons, String.join_cons]
      rfl
    | string => simp at h
    | integer => simp at h

/-! ## All passes -/

/-- Passes go on where arguments are left behind a pass that took some. -/
theorem passes_eq (format : List Directive) (args : List String) : passes format args =
    if 0 < conversions format ∧ conversions format < args.length then
      (pass format args).1.append (passes format (args.drop (conversions format)))
    else (pass format args).1 := by
  have hleft : args.drop (conversions format) ≠ []
      ∧ (args.drop (conversions format)).length < args.length
      ↔ 0 < conversions format ∧ conversions format < args.length := by
    rw [ne_eq, List.drop_eq_nil_iff, List.length_drop]
    omega
  rw [passes]
  simp only [pass_snd, hleft]

/-- Arguments that fill whole groups are printed before those after them. -/
theorem passes_append {as : List String} (hk : 0 < conversions format) (has : as ≠ [])
    (hgroups : conversions format ∣ as.length) (hbs : bs ≠ []) :
    passes format (as ++ bs) = (passes format as).append (passes format bs) := by
  have hle : conversions format ≤ as.length :=
    Nat.le_of_dvd (List.length_pos_iff.2 has) hgroups
  have hmore : conversions format < (as ++ bs).length := by
    have hpos := List.length_pos_iff.2 hbs
    rw [List.length_append]
    omega
  rw [passes_eq format (as ++ bs), if_pos ⟨hk, hmore⟩, pass_append_fst hle,
    List.drop_append_of_le_length hle, passes_eq format as]
  by_cases hlast : conversions format < as.length
  -- the first group of `as` is taken, and the others are fewer
  · have hrest : as.drop (conversions format) ≠ [] := by
      rwa [ne_eq, List.drop_eq_nil_iff, Nat.not_le]
    have hfewer : conversions format ∣ (as.drop (conversions format)).length := by
      rw [List.length_drop]
      exact Nat.dvd_sub hgroups (Nat.dvd_refl _)
    rw [if_pos ⟨hk, hlast⟩, Printed.append_assoc, passes_append hk hrest hfewer hbs]
  · rw [if_neg fun h => hlast h.2, List.drop_eq_nil_of_le (Nat.not_lt.1 hlast), List.nil_append]
termination_by as.length
decreasing_by
  rw [List.length_drop]
  omega

/-- Printing as it goes on: a pass takes the next arguments, and is the last one if it takes none or
leaves none. -/
inductive Prints (format : List Directive) : List (List String) → List String → Printed → Prop
  | last {taken left : List String} {printed : Printed}
      (hpass : pass format (taken ++ left) = (printed, left)) (hlast : taken = [] ∨ left = []) :
      Prints format [taken] (taken ++ left) printed
  | again {taken left : List String} {groups : List (List String)} {first more : Printed}
      (hpass : pass format (taken ++ left) = (first, left)) (htaken : taken ≠ []) (hleft : left ≠ [])
      (hmore : Prints format groups left more) :
      Prints format (taken :: groups) (taken ++ left) (first.append more)

/-- The arguments in groups of `k`, the last of which may be smaller; one group of none if nothing is
to be grouped. -/
def groups (k : Nat) (args : List String) : List (List String) :=
  if 0 < k ∧ k < args.length then args.take k :: groups k (args.drop k) else [args.take k]
termination_by args.length
decreasing_by
  rw [List.length_drop]
  omega

/-- Groups of arguments make up all arguments. -/
theorem flatten_groups {k : Nat} (hk : 0 < k) (args : List String) : (groups k args).flatten = args := by
  fun_induction groups k args with
  | case1 args h ih => rw [List.flatten_cons, ih, List.take_append_drop]
  | case2 args h =>
    rw [List.flatten_singleton, List.take_of_length_le]
    omega

/-- A pass takes as many arguments as there are conversions, and leaves the others. -/
theorem pass_eq (format : List Directive) (args : List String) :
    pass format (args.take (conversions format) ++ args.drop (conversions format))
      = ((pass format args).1, args.drop (conversions format)) := by
  rw [List.take_append_drop, ← pass_snd]

/-- Printing comes to an end, with one pass for each group. -/
theorem prints_passes (format : List Directive) (args : List String) :
    Prints format (groups (conversions format) args) args (passes format args) := by
  rw [groups, passes_eq]
  have hargs := List.take_append_drop (conversions format) args
  split
  · next h =>
    have hmore := prints_passes format (args.drop (conversions format))
    have hagain := Prints.again (pass_eq format args) ?_ ?_ hmore
    · rwa [hargs] at hagain
    · rw [ne_eq, List.take_eq_nil_iff, not_or]
      exact ⟨by omega, fun hnil => by simp [hnil] at h⟩
    · rw [ne_eq, List.drop_eq_nil_iff]
      omega
  · next h =>
    have hlast := Prints.last (pass_eq format args) ?_
    · rwa [hargs] at hlast
    · rw [List.take_eq_nil_iff, List.drop_eq_nil_iff]
      omega
termination_by args.length
decreasing_by
  rw [List.length_drop]
  omega

/-- The arguments that a pass takes, told by what it leaves. -/
theorem taken_eq_take {printed : Printed} (h : pass format (taken ++ left) = (printed, left)) :
    taken = (taken ++ left).take (conversions format) ∧
      left = (taken ++ left).drop (conversions format) := by
  have hleft : left = (taken ++ left).drop (conversions format) := by rw [← pass_snd, h]
  have hboth := List.take_append_drop (conversions format) (taken ++ left)
  rw [← hleft] at hboth
  exact ⟨(List.append_cancel_right hboth).symm, hleft⟩

/-- There is one way for it to go on. -/
theorem Prints.unique {passed : List (List String)} {printed : Printed}
    (h : Prints format passed args printed) :
    passed = groups (conversions format) args ∧ printed = passes format args := by
  induction h with
  | @last taken left printed hpass hlast =>
    obtain ⟨htaken, hleft⟩ := taken_eq_take hpass
    have hstop : ¬ (0 < conversions format ∧ conversions format < (taken ++ left).length) := by
      have hlength := congrArg List.length hleft
      rw [List.length_drop, List.length_append] at hlength
      rw [List.length_append]
      rcases hlast with rfl | rfl <;> simp only [List.length_nil] at hlength ⊢ <;> omega
    rw [groups, passes_eq, if_neg hstop, if_neg hstop, hpass, ← htaken]
    exact ⟨rfl, rfl⟩
  | @again taken left rest first more hpass htaken hleft hmore ih =>
    obtain ⟨htake, hdrop⟩ := taken_eq_take hpass
    have hgo : 0 < conversions format ∧ conversions format < (taken ++ left).length := by
      have hlength := congrArg List.length hdrop
      rw [List.length_drop, List.length_append] at hlength
      have hpos := List.length_pos_iff.2 htaken
      have hpos' := List.length_pos_iff.2 hleft
      rw [List.length_append]
      omega
    rw [groups, passes_eq, if_pos hgo, if_pos hgo, hpass, ← htake, ← hdrop, ← ih.1, ← ih.2]
    exact ⟨rfl, rfl⟩

/-! ## Commands -/

theorem outcome_cons (text : String) (args : List String) :
    outcome (text :: args) = (passes (directives text.toList) args).outcome :=
  rfl

/-- Printing comes to an end. It takes every argument once, in groups of as many as the format has
conversions, and prints the format for each group. So what it prints of two lists of arguments, the
first of which fills its groups, is what it prints of the one and then of the other, and it fails if
it fails for one of them. A format without conversions is printed once, whatever the arguments. -/
theorem outcome_reuses_format (text : String) :
    (∀ args, ∃ passed printed, Prints (directives text.toList) passed args printed
      ∧ outcome (text :: args) = printed.outcome
      ∧ (0 < conversions (directives text.toList) → passed.flatten = args)
      ∧ ∀ passed' printed', Prints (directives text.toList) passed' args printed' →
        passed' = passed ∧ printed' = printed)
    ∧ (0 < conversions (directives text.toList) → ∀ as bs : List String, as ≠ [] →
      conversions (directives text.toList) ∣ as.length → bs ≠ [] →
      (outcome (text :: (as ++ bs))).stdout
          = (outcome (text :: as)).stdout ++ (outcome (text :: bs)).stdout
        ∧ (outcome (text :: (as ++ bs))).stderr
          = (outcome (text :: as)).stderr ++ (outcome (text :: bs)).stderr
        ∧ ((outcome (text :: (as ++ bs))).exitCode = 1
          ↔ (outcome (text :: as)).exitCode = 1 ∨ (outcome (text :: bs)).exitCode = 1))
    ∧ (conversions (directives text.toList) = 0 → ∀ args,
      outcome (text :: args) = .ok (literal (directives text.toList))
        ∧ ∃ printed, Prints (directives text.toList) [[]] args printed) := by
  refine ⟨fun args => ?_, fun hk as bs has hgroups hbs => ?_, fun hnone args => ?_⟩
  · exact ⟨_, _, prints_passes _ args, outcome_cons text args, fun hk => flatten_groups hk args,
      fun _ _ h => h.unique⟩
  · simp only [outcome_cons, passes_append hk has hgroups hbs, Printed.exitCode_outcome]
    refine ⟨Bytes.ofString_append _ _, Bytes.ofString_append _ _, ?_⟩
    rw [ne_eq, Printed.err_append_eq_empty_iff, not_and_or]
  · have hone : groups (conversions (directives text.toList)) args = [[]] := by
      rw [groups, hnone, if_neg (by omega), List.take_zero]
    refine ⟨?_, _, hone ▸ prints_passes _ args⟩
    rw [outcome_cons, passes_eq, if_neg (by omega), pass_of_no_conversions hnone]
    rfl

/-- Three pairs are printed with a format for one; the argument that is missing is 0. -/
theorem outcome_reuses_format_pairs :
    0 < conversions (directives "%s=%d\n".toList)
      ∧ conversions (directives "%s=%d\n".toList) ∣ ["a", "1"].length
      ∧ (outcome ["%s=%d\n", "a", "1", "b", "x", "c"]).stdout = Bytes.ofString "a=1
b=0
c=0
"
      ∧ (outcome ["%s=%d\n", "a", "1", "b", "x", "c"]).exitCode = 1
      ∧ outcome ["100%%", "a", "b"] = .ok "100%" := by
  have hfirst : (outcome ["%s=%d\n", "a", "1"]).stdout = Bytes.ofString "a=1
" := by decide +kernel
  have hsecond : (outcome ["%s=%d\n", "b", "x", "c"]).stdout = Bytes.ofString "b=0
c=0
" := by
    decide +kernel
  have hfails : (outcome ["%s=%d\n", "b", "x", "c"]).exitCode = 1 := by decide +kernel
  have hk : 0 < conversions (directives "%s=%d\n".toList) := by decide
  have hgroups : conversions (directives "%s=%d\n".toList) ∣ ["a", "1"].length := by decide
  obtain ⟨hout, -, hcode⟩ := (outcome_reuses_format "%s=%d\n").2.1 hk ["a", "1"] ["b", "x", "c"]
    (List.cons_ne_nil _ _) hgroups (List.cons_ne_nil _ _)
  rw [hfirst, hsecond] at hout
  simp only [List.cons_append, List.nil_append] at hout hcode
  have hliteral : literal (directives "100%%".toList) = "100%" := by decide +kernel
  obtain ⟨honce, -⟩ := (outcome_reuses_format "100%%").2.2 (by decide) ["a", "b"]
  rw [hliteral] at honce
  exact ⟨hk, hgroups, hout.trans (by decide), hcode.2 (.inr hfails), honce⟩

end Printf

end Sandshell
