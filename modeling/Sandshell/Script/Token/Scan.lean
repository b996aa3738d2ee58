import Sandshell.Script.Form
import Sandshell.Script.Token

/-!
# Reading tokens

`Token.scan` cuts a script into words and operators. Dollar forms are copied as they stand, so that
their inner text keeps its quotes for the expansion.
-/

namespace Sandshell

/-- The operator at the start of a text, with the text after it. A file descriptor number is part of
an operator only where no word has begun. -/
def Operator.read? (inWord : Bool) : List Char → Option (Except ParseError (Operator × List Char))
  | '\n' :: rest => some (.ok (.newline, rest))
  | ';' :: rest => some (.ok (.semicolon, rest))
  | '(' :: rest => some (.ok (.openParen, rest))
  | ')' :: rest => some (.ok (.closeParen, rest))
  | '<' :: rest => some (.ok (.input, rest))
  | '>' :: '>' :: rest => some (.ok (.append, rest))
  | '>' :: '&' :: _ => some (.error (.unsupported ">&"))
  | '>' :: rest => some (.ok (.output, rest))
  | '|' :: '|' :: rest => some (.ok (.orElse, rest))
  | '|' :: rest => some (.ok (.pipe, rest))
  | '&' :: '&' :: rest => some (.ok (.andThen, rest))
  | '&' :: _ => some (.error (.unsupported "&"))
  | '2' :: '>' :: rest =>
    if inWord then none
    else
      match rest with
      | '>' :: rest => some (.ok (.errorsAppend, rest))
      | '&' :: '1' :: rest => some (.ok (.errorsToOutput, rest))
      | '&' :: _ => some (.error (.unsupported "2>&"))
      | rest => some (.ok (.errors, rest))
  | _ => none

theorem Operator.length_lt_of_read? {inWord : Bool} {s rest : List Char} {op : Operator}
    (h : Operator.read? inWord s = some (.ok (op, rest))) : rest.length < s.length := by
  unfold Operator.read? at h
  split at h
  all_goals try split at h
  all_goals try split at h
  all_goals simp only [Option.some.injEq, Except.ok.injEq, Prod.mk.injEq, reduceCtorEq] at h
  all_goals
    obtain ⟨-, rfl⟩ := h
    simp only [List.length_cons]
    omega

namespace Token

/-- The word under construction as a token, before the tokens that follow it. -/
def finish (draft : Option Word.Draft) (rest : List Token) : List Token :=
  match draft with
  | some parts => .word parts.word :: rest
  | none => rest

mutual

/-- Reads tokens outside quotes; `draft` is the word begun before this text. -/
def scanBare (draft : Option Word.Draft) (s : List Char) : Except ParseError (List Token) :=
  match s with
  | [] => .ok (finish draft [])
  | c :: rest =>
    let parts := draft.getD []
    if c = ' ' ∨ c = '\t' ∨ c = '\r' then
      return finish draft (← scanBare none rest)
    else if c = '#' ∧ draft.isNone then
      scanComment rest
    else if c = '\'' then
      scanSingle (parts.openPart .single) rest
    else if c = '"' then
      scanDouble (parts.openPart .double) rest
    else if c = '\\' then
      match rest with
      | [] => .ok (finish (some (parts.push .none c)) [])
      | next :: rest =>
        if next = '\n' then scanBare draft rest
        else scanBare (some (parts.push .single next)) rest
    else if c = '$' then
      scanBare (some ((parts.push .none c).pushAll .none (Form.take rest).1)) (Form.take rest).2
    else
      match _h : Operator.read? draft.isSome (c :: rest) with
      | some (.ok (o, rest')) => return finish draft (Token.operator o :: (← scanBare none rest'))
      | some (.error e) => .error e
      | none => scanBare (some (parts.push .none c)) rest
termination_by s.length
decreasing_by
  all_goals first
    | exact Operator.length_lt_of_read? ‹_›
    | exact Form.length_take_snd_lt _ _
    | (simp only [List.length_cons]; omega)

/-- Skips a comment up to its line break. -/
def scanComment (s : List Char) : Except ParseError (List Token) :=
  match s with
  | [] => .ok []
  | c :: rest => if c = '\n' then return Token.operator .newline :: (← scanBare none rest) else scanComment rest
termination_by s.length

/-- Reads on inside single quotes. -/
def scanSingle (parts : Word.Draft) (s : List Char) : Except ParseError (List Token) :=
  match s with
  | [] => .error (.unterminatedQuote '\'')
  | c :: rest =>
    if c = '\'' then scanBare (some parts) rest else scanSingle (parts.push .single c) rest
termination_by s.length

/-- Reads on inside double quotes. A backslash escapes a quote, a backslash or a dollar sign; the
escaped dollar sign is kept out of expansion as a part of its own. -/
def scanDouble (parts : Word.Draft) (s : List Char) : Except ParseError (List Token) :=
  match s with
  | [] => .error (.unterminatedQuote '"')
  | c :: rest =>
    if c = '"' then scanBare (some parts) rest
    else if c = '\\' then
      match rest with
      | [] => .error (.unterminatedQuote '"')
      | next :: rest' =>
        if next = '"' ∨ next = '\\' then scanDouble (parts.push .double next) rest'
        else if next = '$' then scanDouble ((parts.push .single '$').openPart .double) rest'
        else scanDouble (parts.push .double c) (next :: rest')
    else if c = '$' then
      scanDouble ((parts.push .double c).pushAll .double (Form.take rest).1) (Form.take rest).2
    else scanDouble (parts.push .double c) rest
termination_by s.length
decreasing_by
  all_goals first
    | exact Form.length_take_snd_lt _ _
    | (simp only [List.length_cons]; omega)

end

/-- The tokens of a script. -/
def scan (script : String) : Except ParseError (List Token) :=
  scanBare none script.toList

end Token

end Sandshell
