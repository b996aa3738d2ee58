import Sandshell.Script.Form
import Sandshell.Script.Word
import Sandshell.Shell.State

/-!
# Pieces of expandable text

Text outside single quotes is read once into pieces: plain characters, parameters and command
substitutions. A malformed form becomes a piece too, since it counts only when it is reached.
-/

namespace Sandshell

/-- Something whose value a form can ask for. -/
inductive Parameter where
  | variable (name : String)
  | exitCode
  | count
  | all
  | shellName
  | positional (n : Nat)
deriving DecidableEq, Repr, Inhabited

namespace Parameter

/-- The parameter that a run of digits names: zero alone is the name of the shell. -/
def ofDigits? (chars : List Char) : Option Parameter :=
  if chars = ['0'] then some .shellName
  else if !chars.isEmpty && chars.all Char.isDigit then
    some (.positional (chars.foldl (fun n c => n * 10 + (c.toNat - '0'.toNat)) 0))
  else none

/-- The parameter that a special character names. -/
def ofSpecial? : Char → Option Parameter
  | '?' => some .exitCode
  | '#' => some .count
  | '@' => some .all
  | '*' => some .all
  | _ => none

/-- The parameter that a text between braces names. -/
def ofName? (chars : List Char) : Option Parameter :=
  if Word.isName (String.ofList chars) then some (.variable (String.ofList chars))
  else
    match chars with
    | [c] => (ofSpecial? c).or (ofDigits? [c])
    | _ => ofDigits? chars

/-- The value of a parameter, if it has one. -/
def value? (state : ShellState) : Parameter → Option String
  | .variable name => state.lookup name
  | .exitCode => some (toString state.lastExitCode)
  | .count => some (toString state.positional.length)
  | .all => some (" ".intercalate state.positional)
  | .shellName => some "sh"
  | .positional 0 => none
  | .positional (n + 1) => state.positional[n]?

end Parameter

/-- A form as it stands in a text, its dollar sign left out. -/
inductive DollarForm where
  | script (text : List Char)
  | unclosedScript
  | braces (body : List Char)
  | unclosedBraces (body : List Char)
  | parameter (p : Parameter)

/-- The form after a dollar sign, with the text after it; `none` if the dollar sign stands alone. -/
def DollarForm.read? (s : List Char) : Option (DollarForm × List Char) :=
  match s with
  | [] => none
  | c :: rest =>
    if c = '(' then
      match Form.splitAtParen .bare 0 rest with
      | some (inside, after) => some (.script inside, after)
      | none => some (.unclosedScript, [])
    else if c = '{' then
      match Form.splitAtBrace rest with
      | some (inside, after) => some (.braces inside, after)
      | none => some (.unclosedBraces rest, [])
    else if Word.isNameStart c then
      let name := c :: rest.takeWhile Word.isNameChar
      some (.parameter (.variable (String.ofList name)), rest.dropWhile Word.isNameChar)
    else
      ((Parameter.ofSpecial? c).or (Parameter.ofDigits? [c])).map fun p => (.parameter p, rest)

/-- A text before the first colon and dash, and the text after them. -/
def DollarForm.splitDefault : List Char → List Char × Option (List Char)
  | ':' :: '-' :: rest => ([], some rest)
  | c :: rest => let (name, default?) := splitDefault rest; (c :: name, default?)
  | [] => ([], none)

theorem DollarForm.length_splitDefault_lt {body name default : List Char}
    (h : splitDefault body = (name, some default)) : default.length < body.length := by
  induction body using splitDefault.induct generalizing name default with
  | case1 rest =>
    simp only [splitDefault, Prod.mk.injEq, Option.some.injEq] at h
    obtain ⟨-, rfl⟩ := h
    simp only [List.length_cons]
    omega
  | case2 c rest hne n d hrest ih =>
    rw [splitDefault] at h
    · simp only [hrest, Prod.mk.injEq] at h
      obtain ⟨-, rfl⟩ := h
      have := ih hrest
      simp only [List.length_cons]
      omega
    · exact hne
  | case3 => simp [splitDefault] at h

/-- What a form leaves over and what it encloses are both shorter than it. -/
theorem DollarForm.length_of_read? {s after : List Char} {form : DollarForm}
    (h : read? s = some (form, after)) :
    after.length ≤ s.length ∧ ∀ body, form = .braces body → body.length < s.length := by
  unfold read? at h
  split at h
  · simp at h
  · next c rest =>
    split at h
    · split at h
      · next inside after' hs =>
        simp only [Option.some.injEq, Prod.mk.injEq] at h
        obtain ⟨rfl, rfl⟩ := h
        have := congrArg List.length (Form.eq_of_splitAtParen hs)
        simp only [List.length_append, List.length_cons] at this ⊢
        exact ⟨by omega, by simp⟩
      · simp only [Option.some.injEq, Prod.mk.injEq] at h
        obtain ⟨rfl, rfl⟩ := h
        exact ⟨by simp, by simp⟩
    · split at h
      · split at h
        · next inside after' hs =>
          simp only [Option.some.injEq, Prod.mk.injEq] at h
          obtain ⟨rfl, rfl⟩ := h
          have := congrArg List.length (Form.eq_of_splitAtBrace hs)
          simp only [List.length_append, List.length_cons] at this ⊢
          refine ⟨by omega, fun body hb => ?_⟩
          cases hb
          omega
        · simp only [Option.some.injEq, Prod.mk.injEq] at h
          obtain ⟨rfl, rfl⟩ := h
          exact ⟨by simp, by simp⟩
      · split at h
        · simp only [Option.some.injEq, Prod.mk.injEq] at h
          obtain ⟨rfl, rfl⟩ := h
          have := (List.dropWhile_sublist Word.isNameChar (l := rest)).length_le
          simp only [List.length_cons]
          exact ⟨by omega, by simp⟩
        · simp only [Option.map_eq_some_iff, Prod.mk.injEq] at h
          obtain ⟨p, -, rfl, rfl⟩ := h
          simp only [List.length_cons]
          exact ⟨by omega, by simp⟩

/-- A piece of expandable text. -/
inductive Piece where
  | char (c : Char)
  | parameter (p : Parameter)
  /-- The value of a parameter, or a text where it is unset or empty. -/
  | parameterOr (p : Parameter) (default : List Piece)
  | substitution (script : String)
  | unclosedSubstitution
  | badSubstitution (body : String)
deriving Repr, Inhabited

/-- The pieces of a text. Nothing after an unclosed form is reached. -/
def Piece.scan (s : List Char) : List Piece :=
  match s with
  | [] => []
  | c :: rest =>
    if c = '$' then
      match _form : DollarForm.read? rest with
      | none => .char c :: scan rest
      | some (.script text, after) => .substitution (String.ofList text) :: scan after
      | some (.unclosedScript, _) => [.unclosedSubstitution]
      | some (.unclosedBraces body, _) => [.badSubstitution (String.ofList body)]
      | some (.parameter p, after) => .parameter p :: scan after
      | some (.braces body, after) =>
        match _split : DollarForm.splitDefault body with
        | (name, default?) =>
          let piece : Piece :=
            match Parameter.ofName? name with
            | none => .badSubstitution (String.ofList body)
            | some p =>
              match default? with
              | none => .parameter p
              | some default => .parameterOr p (scan default)
          piece :: scan after
    else .char c :: scan rest
termination_by s.length
decreasing_by
  all_goals simp only [List.length_cons]
  · omega
  · have := (DollarForm.length_of_read? _form).1
    omega
  · have := (DollarForm.length_of_read? _form).1
    omega
  · have h1 := (DollarForm.length_of_read? _form).2 body rfl
    have h2 := DollarForm.length_splitDefault_lt _split
    omega
  · have := (DollarForm.length_of_read? _form).1
    omega
  · omega

end Sandshell
