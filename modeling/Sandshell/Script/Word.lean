import Sandshell.Text.Split

/-!
# Words

A word is a run of parts, each quoted in one way. `Word.Draft` is a word under construction: adding
a character extends the newest part when the quoting agrees and starts a new part otherwise.
-/

namespace Sandshell

/-- How a piece of a word is quoted. -/
inductive Quote where
  /-- Bare text: expanded, split and matched against file names. -/
  | none
  /-- Taken as it stands. -/
  | single
  /-- Expanded, but neither split nor matched. -/
  | double
deriving DecidableEq, Repr, Inhabited

/-- A run of text in one quoting style, its quotes and escapes removed. -/
structure WordPart where
  quote : Quote
  text : String
deriving DecidableEq, Repr, Inhabited

/-- One word of a script. -/
structure Word where
  parts : List WordPart
deriving DecidableEq, Repr, Inhabited

namespace Word

/-- Bare if no part is quoted, single if all parts are, double otherwise. -/
def quote (w : Word) : Quote :=
  if w.parts.all (·.quote = .none) then .none
  else if w.parts.all (·.quote = .single) then .single
  else .double

/-- Some part is quoted. -/
def isQuoted (w : Word) : Bool :=
  w.quote ≠ .none

/-- The text of all parts. -/
def literal (w : Word) : String :=
  String.join (w.parts.map (·.text))

/-- A letter or an underscore. -/
def isNameStart (c : Char) : Bool :=
  c.isAlpha || c = '_'

/-- A letter, a digit or an underscore. -/
def isNameChar (c : Char) : Bool :=
  c.isAlphanum || c = '_'

/-- A letter or underscore followed by letters, digits and underscores, all ASCII. -/
def isName (s : String) : Bool :=
  match s.toList with
  | [] => false
  | c :: rest => isNameStart c && rest.all isNameChar

/-- Name and value of an assignment: a bare first part with a valid name before its first equals
sign. -/
def assignment? (w : Word) : Option (String × Word) :=
  match w.parts with
  | ⟨.none, text⟩ :: rest =>
    match Text.splitFirst? '=' text with
    | some (name, value) =>
      if isName name then
        some (name, ⟨if value = "" then rest else ⟨.none, value⟩ :: rest⟩)
      else none
    | none => none
  | _ => none

/-- A word under construction, newest part first. -/
abbrev Draft := List WordPart

/-- Adds a character in the given quoting. -/
def Draft.push (draft : Draft) (quote : Quote) (c : Char) : Draft :=
  match draft with
  | ⟨newest, text⟩ :: older =>
    if newest = quote then ⟨newest, text.push c⟩ :: older
    else ⟨quote, String.singleton c⟩ :: ⟨newest, text⟩ :: older
  | [] => [⟨quote, String.singleton c⟩]

/-- Adds characters in the given quoting. -/
def Draft.pushAll (draft : Draft) (quote : Quote) (chars : List Char) : Draft :=
  chars.foldl (fun draft c => draft.push quote c) draft

/-- Starts an empty part, so that a pair of quotes around nothing still makes a word. -/
def Draft.openPart (draft : Draft) (quote : Quote) : Draft :=
  ⟨quote, ""⟩ :: draft

/-- The finished word. -/
def Draft.word (draft : Draft) : Word :=
  ⟨draft.reverse⟩

end Word

end Sandshell
