import Sandshell.Script.Word

/-!
# Tokens

Words and operators, and the ways in which a script can fail to be one.
-/

namespace Sandshell

/-- Punctuation of a script. -/
inductive Operator where
  | andThen
  | orElse
  | pipe
  | semicolon
  | newline
  | input
  | output
  | append
  | errors
  | errorsAppend
  | errorsToOutput
  | openParen
  | closeParen
deriving DecidableEq, Repr, Inhabited

namespace Operator

/-- How the operator is named in messages. -/
def spelling : Operator → String
  | .andThen => "&&"
  | .orElse => "||"
  | .pipe => "|"
  | .semicolon => ";"
  | .newline => "newline"
  | .input => "<"
  | .output => ">"
  | .append => ">>"
  | .errors => "2>"
  | .errorsAppend => "2>>"
  | .errorsToOutput => "2>&1"
  | .openParen => "("
  | .closeParen => ")"

/-- Starts a redirection. -/
def isRedirection : Operator → Bool
  | .input | .output | .append | .errors | .errorsAppend | .errorsToOutput => true
  | _ => false

end Operator

/-- A lexical unit of a script. -/
inductive Token where
  | operator (o : Operator)
  | word (w : Word)
deriving DecidableEq, Repr, Inhabited

/-- Why a text is no script. -/
inductive ParseError where
  | unterminatedQuote (quote : Char)
  | unexpectedToken (token : String)
  | unexpectedEnd (operator : String)
  | missingTarget (operator : String)
  | emptyCommand
  | unsupported (operator : String)
deriving DecidableEq, Repr, Inhabited

/-- The wording of a syntax error. -/
def ParseError.message : ParseError → String
  | .unterminatedQuote c => "syntax error: unterminated " ++ String.singleton c ++ " quote"
  | .unexpectedToken t => "syntax error near unexpected token \x60" ++ t ++ "'"
  | .unexpectedEnd op => "syntax error: unexpected end of input after \x60" ++ op ++ "'"
  | .missingTarget op => "syntax error: \x60" ++ op ++ "' requires a target path"
  | .emptyCommand => "syntax error: empty command"
  | .unsupported op => "syntax error: unsupported operator \x60" ++ op ++ "'"

end Sandshell
