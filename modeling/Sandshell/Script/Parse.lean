import Sandshell.Script.Token.Scan
import Sandshell.Script.Tree

/-!
# From tokens to trees

A predictive reader: each function takes what it reads off the front of a token list and returns the
rest together with the proof that it is shorter, which is what makes the recursion end. The first
token that no rule admits decides the error.
-/

namespace Sandshell

namespace Script

/-- What is left of `ts` after at least one token has been read. -/
abbrev Shorter (ts : List Token) := { rest : List Token // rest.length < ts.length }

/-- What is left of `ts` after any number of tokens has been read. -/
abbrev NoLonger (ts : List Token) := { rest : List Token // rest.length ≤ ts.length }

/-- The error for a token that no rule admits; at the end a command is missing. -/
def unexpected : List Token → ParseError
  | .operator o :: _ => .unexpectedToken o.spelling
  | .word w :: _ => .unexpectedToken w.literal
  | [] => .emptyCommand

/-- Without the line breaks in front. -/
def skipNewlines : List Token → List Token
  | .operator .newline :: rest => skipNewlines rest
  | ts => ts

theorem length_skipNewlines_le (ts : List Token) : (skipNewlines ts).length ≤ ts.length := by
  fun_induction skipNewlines ts with
  | case1 rest ih => simp only [List.length_cons]; omega
  | case2 => exact Nat.le_refl _

/-- A nested script ends at a closing parenthesis, every script ends with the tokens. -/
def atEnd (nested : Bool) : List Token → Bool
  | [] => true
  | .operator .closeParen :: _ => nested
  | _ => false

/-- The tokens after a semicolon or a line break. -/
def afterSeparator? : List Token → Option (List Token)
  | .operator .semicolon :: rest => some rest
  | .operator .newline :: rest => some rest
  | _ => none

/-- The tokens after a pipe. -/
def afterPipe? : List Token → Option (List Token)
  | .operator .pipe :: rest => some rest
  | _ => none

/-- A connector and the tokens after it. -/
def afterConnector? : List Token → Option (Connector × List Token)
  | .operator .andThen :: rest => some (.andThen, rest)
  | .operator .orElse :: rest => some (.orElse, rest)
  | _ => none

/-- The tokens after a closing parenthesis. -/
def afterParen? : List Token → Option (List Token)
  | .operator .closeParen :: rest => some rest
  | _ => none

theorem length_lt_of_afterSeparator? {ts rest : List Token} (h : afterSeparator? ts = some rest) :
    rest.length < ts.length := by
  unfold afterSeparator? at h
  split at h <;> simp_all

theorem length_lt_of_afterPipe? {ts rest : List Token} (h : afterPipe? ts = some rest) :
    rest.length < ts.length := by
  unfold afterPipe? at h
  split at h <;> simp_all

theorem length_lt_of_afterConnector? {ts rest : List Token} {c : Connector}
    (h : afterConnector? ts = some (c, rest)) : rest.length < ts.length := by
  unfold afterConnector? at h
  split at h <;> simp_all

theorem length_lt_of_afterParen? {ts rest : List Token} (h : afterParen? ts = some rest) :
    rest.length < ts.length := by
  unfold afterParen? at h
  split at h <;> simp_all

/-- How the operator for a connector is spelled. -/
def connectorSpelling : Connector → String
  | .andThen => Operator.andThen.spelling
  | .orElse => Operator.orElse.spelling

/-- Reads a redirection of which the operator `o` has been read; `none` if `o` starts none. -/
def readRedirection (o : Operator) (ts : List Token) :
    Option (Except ParseError (Redirection × NoLonger ts)) :=
  let withTarget (make : Word → Redirection) : Except ParseError (Redirection × NoLonger ts) :=
    match ts with
    | .word w :: rest => .ok (make w, ⟨rest, by simp⟩)
    | _ => .error (.missingTarget o.spelling)
  match o with
  | .input => some (withTarget .input)
  | .output => some (withTarget (.output .out .truncate))
  | .append => some (withTarget (.output .out .append))
  | .errors => some (withTarget (.output .err .truncate))
  | .errorsAppend => some (withTarget (.output .err .append))
  | .errorsToOutput => some (.ok (.errorsToOutput, ⟨ts, Nat.le_refl _⟩))
  | _ => none

/-- Reads the redirections after a group. -/
def readRedirections (ts : List Token) : Except ParseError (List Redirection × NoLonger ts) :=
  match ts with
  | .operator o :: rest =>
    match readRedirection o rest with
    | some (.ok (r, ⟨rest', _h⟩)) => do
      let (rs, ⟨rest'', _⟩) ← readRedirections rest'
      return (r :: rs, ⟨rest'', by simp only [List.length_cons]; omega⟩)
    | some (.error e) => .error e
    | none => .ok ([], ⟨.operator o :: rest, Nat.le_refl _⟩)
  | ts => .ok ([], ⟨ts, Nat.le_refl _⟩)
termination_by ts.length
decreasing_by simp only [List.length_cons]; omega

/-- What the items of a simple command are read into: every word takes a token. -/
structure Items (ts : List Token) where
  words : List Word
  redirections : List Redirection
  rest : List Token
  length_le : rest.length + words.length ≤ ts.length

/-- Reads the words and redirections of a simple command. -/
def readItems (ts : List Token) : Except ParseError (Items ts) :=
  match ts with
  | .word w :: rest => do
    let items ← readItems rest
    have := items.length_le
    return ⟨w :: items.words, items.redirections, items.rest, by simp only [List.length_cons]; omega⟩
  | .operator o :: rest =>
    match readRedirection o rest with
    | some (.ok (r, ⟨rest', _h⟩)) => do
      let items ← readItems rest'
      have := items.length_le
      return ⟨items.words, r :: items.redirections, items.rest, by
        simp only [List.length_cons]; omega⟩
    | some (.error e) => .error e
    | none => .ok ⟨[], [], .operator o :: rest, Nat.le_refl _⟩
  | [] => .ok ⟨[], [], [], Nat.le_refl _⟩
termination_by ts.length
decreasing_by all_goals simp only [List.length_cons]; omega

/-- Reads a simple command, which has at least one word. -/
def readSimple (ts : List Token) : Except ParseError (Command × Shorter ts) := do
  match ← readItems ts with
  | ⟨[], [], _, _⟩ => throw (unexpected ts)
  | ⟨[], _ :: _, _, _⟩ => throw .emptyCommand
  | ⟨w :: ws, rs, rest, h⟩ =>
    return (.simple (w :: ws) rs, ⟨rest, by simp only [List.length_cons] at h; omega⟩)

mutual

/-- Reads a simple command or a group. -/
def readCommand (ts : List Token) : Except ParseError (Command × Shorter ts) :=
  match ts with
  | .operator .openParen :: inner => do
    let (body, ⟨closing, _⟩) ← readSequences true inner
    match hc : afterParen? closing with
    | none => throw (.unexpectedEnd Operator.openParen.spelling)
    | some rest =>
      if body.isEmpty then throw .emptyCommand
      let (rs, ⟨after, _⟩) ← readRedirections rest
      if let some (.word w) := after.head? then throw (.unexpectedToken w.literal)
      have := length_lt_of_afterParen? hc
      return (.group body rs, ⟨after, by simp only [List.length_cons]; omega⟩)
  | ts => readSimple ts
termination_by 5 * ts.length + 1

/-- Reads a pipeline. -/
def readPipeline (ts : List Token) : Except ParseError (Pipeline × Shorter ts) := do
  let (c, ⟨after, _⟩) ← readCommand ts
  match hp : afterPipe? after with
  | none => return ([c], ⟨after, by assumption⟩)
  | some rest =>
    if (skipNewlines rest).isEmpty then throw (.unexpectedEnd Operator.pipe.spelling)
    have := length_lt_of_afterPipe? hp
    have := length_skipNewlines_le rest
    let (cs, ⟨rest', _⟩) ← readPipeline (skipNewlines rest)
    return (c :: cs, ⟨rest', by omega⟩)
termination_by 5 * ts.length + 2

/-- Reads the guarded pipelines of a sequence. -/
def readTail (ts : List Token) :
    Except ParseError (List (Connector × Pipeline) × NoLonger ts) :=
  match hc : afterConnector? ts with
  | none => return ([], ⟨ts, Nat.le_refl _⟩)
  | some (connector, rest) => do
    if (skipNewlines rest).isEmpty then throw (.unexpectedEnd (connectorSpelling connector))
    have := length_lt_of_afterConnector? hc
    have := length_skipNewlines_le rest
    let (p, ⟨rest', _⟩) ← readPipeline (skipNewlines rest)
    let (steps, ⟨rest'', _⟩) ← readTail rest'
    return ((connector, p) :: steps, ⟨rest'', by omega⟩)
termination_by 5 * ts.length + 3

/-- Reads sequences up to the end of the script. -/
def readSequences (nested : Bool) (ts : List Token) :
    Except ParseError (Script × NoLonger ts) := do
  have hskip := length_skipNewlines_le ts
  if atEnd nested (skipNewlines ts) then
    return ([], ⟨skipNewlines ts, hskip⟩)
  let (head, ⟨rest, _⟩) ← readPipeline (skipNewlines ts)
  let (tail, ⟨rest', _⟩) ← readTail rest
  match hs : afterSeparator? rest' with
  | some more =>
    have := length_lt_of_afterSeparator? hs
    let (following, ⟨rest'', _⟩) ← readSequences nested more
    return (.chain head tail :: following, ⟨rest'', by omega⟩)
  | none =>
    if atEnd nested rest' then return ([.chain head tail], ⟨rest', by omega⟩)
    throw (unexpected rest')
termination_by 5 * ts.length + 4

end

/-- The script that a token list spells. -/
def ofTokens (ts : List Token) : Except ParseError Script := do
  match ← readSequences false ts with
  | (script, ⟨[], _⟩) => return script
  | (_, ⟨rest, _⟩) => throw (unexpected rest)

/-- The script that a text spells. -/
def parse (text : String) : Except ParseError Script := do
  ofTokens (← Token.scan text)

end Script

end Sandshell
