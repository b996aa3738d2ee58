import Sandshell.Time.Format
import Sandshell.Utility.Basic

/-!
# Words, dates and names

The utilities that need no workspace: printing words, the date, and names of the system and user.
-/

namespace Sandshell.Utility

/-- Prints words with blanks between them. -/
def echoOutcome : List String → CommandOutcome
  | "-n" :: words => .ok (" ".intercalate words)
  | words => .ok (" ".intercalate words ++ "\n")

/-- The template of a date, the last one given, or the first argument that is none. -/
def dateTemplate (template : String) : List String → Except String String
  | [] => .ok template
  | argument :: rest =>
    match argument.toList with
    | '+' :: custom => dateTemplate (String.ofList custom) rest
    | _ =>
      if argument = "-u" || argument = "--utc" then dateTemplate template rest else .error argument

/-- Prints the time in a template. -/
def dateOutcome (now : Instant) (args : List String) : CommandOutcome :=
  match dateTemplate "%a %b %e %H:%M:%S UTC %Y" args with
  | .error argument => .fail 1 ("date: invalid date '" ++ argument ++ "'")
  | .ok template =>
    match now.format? template.toList with
    | some text => .ok (text ++ "\n")
    | none => .fail 1 ("date: invalid format '" ++ template ++ "'")

/-- The facts about the system that arguments ask for, or a diagnostic. -/
def systemFields : List String → Except String (List Char)
  | [] => .ok []
  | argument :: rest =>
    match argument.toList with
    | '-' :: letters =>
      match letters.find? fun c => !("asnrm".toList.contains c) with
      | some c => .error ("uname: invalid option -- '" ++ String.singleton c ++ "'")
      | none => return letters ++ (← systemFields rest)
    | _ => .error ("uname: extra operand '" ++ argument ++ "'")

/-- Prints facts about the system, in a fixed order. -/
def unameOutcome (config : ShellConfig) (args : List String) : CommandOutcome :=
  match systemFields args with
  | .error e => .fail 1 e
  | .ok fields =>
    let facts := [('s', "WASI"), ('n', config.hostname), ('r', "preview1"), ('m', "wasm32")]
    let asked := if fields.isEmpty then ['s'] else fields
    let shown := facts.filter fun (field, _) => asked.contains 'a' || asked.contains field
    .ok (" ".intercalate (shown.map Prod.snd) ++ "\n")

/-- Prints the name of the user. -/
def whoamiOutcome (ctx : UtilityContext) : CommandOutcome :=
  .ok (ctx.env.getD "USER" ctx.config.user ++ "\n")

end Sandshell.Utility
