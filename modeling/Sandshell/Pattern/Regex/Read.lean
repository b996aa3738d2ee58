import Sandshell.Pattern.Regex.Error
import Sandshell.Pattern.Regex.Node
import Sandshell.Text.Alphabetic
import Sandshell.Text.Ranges

/-!
# Reading regular expressions

`Regex.read` turns text into an expression. Groups that are open stand on a stack, so that the text
is read from left to right in one loop.
-/

namespace Sandshell.Regex

open scoped Arithmetic

/-- Settings that a pattern can change from inside. -/
structure Flags where
  ignoreCase : Bool := false
  multiLine : Bool := false
  dotAll : Bool := false
  carriageReturn : Bool := false
  verbose : Bool := false
  swapGreed : Bool := false

/-- Without the blanks and comments in front, inside a comment at first if `comment` says so. -/
def skipBlanks (comment : Bool) : List Char → List Char
  | [] => []
  | c :: rest =>
    if comment then skipBlanks (c ≠ '\n') rest
    else if Text.isBlank c then skipBlanks false rest
    else if c = '#' then skipBlanks true rest
    else c :: rest

/-- Without what a verbose pattern does not count. -/
def skip (flags : Flags) (s : List Char) : List Char :=
  if flags.verbose then skipBlanks false s else s

theorem length_skipBlanks_le (comment : Bool) (s : List Char) :
    (skipBlanks comment s).length ≤ s.length := by
  induction s generalizing comment with
  | nil => simp [skipBlanks]
  | cons c rest ih =>
    unfold skipBlanks
    split
    · exact Nat.le_succ_of_le (ih _)
    · split
      · exact Nat.le_succ_of_le (ih _)
      · split
        · exact Nat.le_succ_of_le (ih _)
        · exact Nat.le_refl _

theorem length_skip_le (flags : Flags) (s : List Char) : (skip flags s).length ≤ s.length := by
  unfold skip
  split
  · exact length_skipBlanks_le false s
  · exact Nat.le_refl _

/-- The characters in front that satisfy `p`, and the text after them. After each of them stands
what a verbose pattern does not count. -/
def spread (flags : Flags) (p : Char → Bool) : List Char → List Char × List Char
  | [] => ([], [])
  | c :: rest =>
    if p c then
      let (run, after) := spread flags p (skip flags rest)
      (c :: run, after)
    else ([], c :: rest)
termination_by s => s.length
decreasing_by
  have := length_skip_le flags rest
  simp only [List.length_cons]
  omega

/-! ## Sets and assertions -/

/-- Has a meaning of its own in a pattern. -/
def isMeta (c : Char) : Bool :=
  "\\.+*?()|[]\x7b\x7d^$#&-~".toList.contains c

/-- Stands for itself after a backslash. -/
def isEscapable (c : Char) : Bool :=
  isMeta c || (c.toNat < 128 && !c.isAlphanum && c ≠ '<' && c ≠ '>')

/-- A text as the pattern that matches it alone. -/
def escape (s : String) : String :=
  String.ofList (s.toList.flatMap fun c => if isMeta c then ['\\', c] else [c])

/-- Digits. -/
def digits : List (Char × Char) := [('0', '9')]

/-- White space, ASCII only. -/
def blanks : List (Char × Char) := [('\t', '\r'), (' ', ' ')]

/-- Characters of words, ASCII only. -/
def wordChars : List (Char × Char) := [('0', '9'), ('A', 'Z'), ('_', '_'), ('a', 'z')]

/-- The set that a letter after a backslash names. -/
def namedSet? : Char → Option CharSet
  | 'd' => some ⟨digits⟩
  | 'D' => some (CharSet.complement ⟨digits⟩)
  | 's' => some ⟨blanks⟩
  | 'S' => some (CharSet.complement ⟨blanks⟩)
  | 'w' => some ⟨wordChars⟩
  | 'W' => some (CharSet.complement ⟨wordChars⟩)
  | _ => none

/-- The ranges of the set with a name between colons. -/
def classNamed? (name : String) : Option (List (Char × Char)) :=
  match name with
  | "alnum" => some [('0', '9'), ('A', 'Z'), ('a', 'z')]
  | "alpha" => some [('A', 'Z'), ('a', 'z')]
  | "ascii" => some [('\x00', '\x7f')]
  | "blank" => some [('\t', '\t'), (' ', ' ')]
  | "cntrl" => some [('\x00', '\x1f'), ('\x7f', '\x7f')]
  | "digit" => some digits
  | "graph" => some [('!', '~')]
  | "lower" => some [('a', 'z')]
  | "print" => some [(' ', '~')]
  | "punct" => some [('!', '/'), (':', '@'), ('[', '\x60'), ('\x7b', '~')]
  | "space" => some blanks
  | "upper" => some [('A', 'Z')]
  | "word" => some wordChars
  | "xdigit" => some [('0', '9'), ('A', 'F'), ('a', 'f')]
  | _ => none

/-- Any character but a line break. -/
def dot (flags : Flags) : CharSet :=
  CharSet.complement
    ⟨if flags.dotAll then []
      else if flags.carriageReturn then [('\n', '\n'), ('\r', '\r')]
      else [('\n', '\n')]⟩

/-- The start of the pattern's text or of a line. -/
def lineStart (flags : Flags) : Look :=
  if !flags.multiLine then .start
  else if flags.carriageReturn then .anyLineStart
  else .lineStart

/-- The end of the pattern's text or of a line. -/
def lineFinish (flags : Flags) : Look :=
  if !flags.multiLine then .finish
  else if flags.carriageReturn then .anyLineFinish
  else .lineFinish

/-! ## Numbers -/

/-- A digit of a hexadecimal number. -/
def hexValue? (c : Char) : Option Nat :=
  if c.isDigit then some (c.toNat - '0'.toNat)
  else if 'a' ≤ c && c ≤ 'f' then some (c.toNat - 'a'.toNat + 10)
  else if 'A' ≤ c && c ≤ 'F' then some (c.toNat - 'A'.toNat + 10)
  else none

/-- The character with a number, unless there is none. -/
def charOf? (n : Nat) : Option Char :=
  if h : n.isValidChar then some (Char.ofNatAux n h) else none

/-- Hexadecimal digits of a fixed number. -/
def fixedHex (flags : Flags) : Nat → Nat → List Char → Except RegexError (Char × List Char)
  | 0, value, s =>
    match charOf? value with
    | some c => .ok (c, skip flags s)
    | none => .error .invalidFixedHex
  | count + 1, value, s =>
    match skip flags s with
    | [] => .error .unclosedFixedHex
    | c :: rest =>
      match hexValue? c with
      | some d => fixedHex flags count (value * 16 + d) rest
      | none => .error .fixedHexDigit

/-- The value of hexadecimal digits. -/
def hexNumber (digits : List Char) : Nat :=
  digits.foldl (fun n c => n * 16 + (hexValue? c).getD 0) 0

/-- Hexadecimal digits up to a closing brace. -/
def bracedHex (flags : Flags) (s : List Char) : Except RegexError (Char × List Char) :=
  let (digits, rest) := spread flags (fun c => (hexValue? c).isSome) (skip flags s)
  match rest with
  | [] => .error .unclosedBracedHex
  | '\x7d' :: after =>
    if digits.isEmpty then .error .emptyBracedHex
    else
      match charOf? (hexNumber digits) with
      | some c => .ok (c, after)
      | none => .error .invalidBracedHex
  | _ => .error .bracedHexDigit

/-- A number of 32 bits between blanks. -/
def decimal (flags : Flags) (s : List Char) : Except RegexError (Nat × List Char) :=
  let (digits, rest) := spread flags Char.isDigit (s.dropWhile Text.isBlank)
  if digits.isEmpty then .error .noDigits
  else
    let n := digits.foldl (fun n c => n * 10 + (c.toNat - '0'.toNat)) 0
    if n < 2 ^ (32 : Nat) then .ok (n, rest.dropWhile Text.isBlank) else .error .invalidDecimal

/-! ## Escapes -/

/-- What a character or an escape sequence stands for. -/
inductive Item where
  | char (c : Char)
  | set (s : CharSet)
  | look (l : Look)

/-- A character for itself; a letter stands for both of its cases if case does not count. -/
def Item.ofChar (flags : Flags) (c : Char) : Item :=
  if flags.ignoreCase && (CharSet.otherCase? c c).isSome then .set (CharSet.single c).foldCase
  else .char c

/-- The expression of an item. -/
def Item.node : Item → Node
  | .char c => .char c
  | .set s => .set s
  | .look l => .look l

/-- The assertion that a name in braces after a word boundary stands for. -/
def boundaryNamed? (name : String) : Option Look :=
  match name with
  | "start" => some .wordStart
  | "end" => some .wordFinish
  | "start-half" => some .wordStartHalf
  | "end-half" => some .wordFinishHalf
  | _ => none

/-- Can stand in the name in braces after a word boundary. -/
def isBoundaryNameChar (c : Char) : Bool :=
  c.isAlpha || c = '-'

/-- A word boundary, with the name in braces that may follow it. Braces with anything else belong to
a repetition. -/
def boundary (flags : Flags) (s : List Char) : Except RegexError (Item × List Char) :=
  match s with
  | '\x7b' :: rest =>
    let inner := skip flags rest
    if inner.isEmpty then .error .unfinishedWordBoundary
    else
      match spread flags isBoundaryNameChar inner with
      | ([], _) => .ok (.look .wordEdge, s)
      | (name, '\x7d' :: after) =>
        match boundaryNamed? (String.ofList name) with
        | some l => .ok (.look l, after)
        | none => .error .unrecognizedWordBoundary
      | _ => .error .unclosedWordBoundary
  | _ => .ok (.look .wordEdge, s)

/-- The character that a letter after a backslash stands for. -/
def controlChar? : Char → Option Char
  | 'a' => some '\x07'
  | 'f' => some '\x0c'
  | 't' => some '\t'
  | 'n' => some '\n'
  | 'r' => some '\r'
  | 'v' => some '\x0b'
  | _ => none

/-- The assertion that a letter after a backslash stands for. -/
def assertion? : Char → Option Look
  | 'A' => some .start
  | 'z' => some .finish
  | 'B' => some .noWordEdge
  | '<' => some .wordStart
  | '>' => some .wordFinish
  | _ => none

/-- Hexadecimal digits of a character, `count` of them unless they stand in braces. -/
def hexEscape (flags : Flags) (count : Nat) (s : List Char) :
    Except RegexError (Item × List Char) := do
  match skip flags s with
  | [] => throw .unclosedHex
  | '\x7b' :: rest =>
    let (c, after) ← bracedHex flags rest
    return (.ofChar flags c, after)
  | rest =>
    let (c, after) ← fixedHex flags count 0 rest
    return (.ofChar flags c, after)

/-- An escape sequence after its backslash. -/
def escaped (flags : Flags) : List Char → Except RegexError (Item × List Char)
  | [] => .error .unclosedEscape
  | c :: rest =>
    if c.isDigit then .error .backreference
    else if c = 'p' || c = 'P' then .error .unicodeClass
    else if c = 'x' then hexEscape flags 2 rest
    else if c = 'u' then hexEscape flags 4 rest
    else if c = 'U' then hexEscape flags 8 rest
    else if c = 'b' then boundary flags rest
    else
      match namedSet? c, controlChar? c, assertion? c with
      | some s, _, _ => .ok (.set s, rest)
      | none, some control, _ => .ok (.char control, rest)
      | none, none, some l => .ok (.look l, rest)
      | none, none, none =>
        if isEscapable c then .ok (.char c, rest) else .error .unrecognizedEscape

/-! ## Bracketed sets -/

/-- A set with a name between colons, and the text after it. -/
def posixClass? (s : List Char) : Option (List (Char × Char) × List Char) :=
  match s with
  | ':' :: rest =>
    let negated := rest.head? = some '^'
    let rest := if negated then rest.drop 1 else rest
    match rest.dropWhile (· ≠ ':') with
    | ':' :: ']' :: after =>
      (classNamed? (String.ofList (rest.takeWhile (· ≠ ':')))).map fun ranges =>
        (if negated then (CharSet.complement ⟨ranges⟩).ranges else ranges, after)
    | _ => none
  | _ => none

/-- One item of a bracketed set: a character or an escape sequence. -/
def classItem (flags : Flags) : List Char → Except RegexError (Item × List Char)
  | [] => .error .unclosedClassItem
  | c :: rest => if c = '\\' then escaped flags rest else .ok (.char c, rest)

/-- The ranges of an item that stands alone. -/
def itemRanges : Item → Except RegexError (List (Char × Char))
  | .char c => .ok [(c, c)]
  | .set s => .ok s.ranges
  | .look _ => .error .invalidClassItem

/-- The character of an item that bounds a range. -/
def rangeBound : Item → Except RegexError Char
  | .char c => .ok c
  | _ => .error .invalidClassRangeItem

/-- The character that tells whether a dash in front of `s` joins two items. A verbose pattern
passes over blanks and the mark of a comment, but not over the comment itself. -/
def afterDash? (flags : Flags) (s : List Char) : Option Char :=
  if flags.verbose then
    match s.dropWhile Text.isBlank with
    | '#' :: comment => (comment.dropWhile Text.isBlank).head?
    | rest => rest.head?
  else s.head?

/-- One or two items of a bracketed set: two if a dash joins them. -/
def classRange (flags : Flags) (s : List Char) :
    Except RegexError (List (Char × Char) × List Char) := do
  let (first, rest) ← classItem flags s
  match skip flags rest with
  | [] => throw .unclosedClassItem
  | '-' :: after =>
    if afterDash? flags after = some ']' || afterDash? flags after = some '-' then
      return (← itemRanges first, '-' :: after)
    let after := skip flags after
    if after.isEmpty then throw .unclosedClassDash
    let (second, rest) ← classItem flags after
    let low ← rangeBound first
    let high ← rangeBound second
    if high < low then throw .invalidClassRange
    return ([(low, high)], rest)
  | rest => return (← itemRanges first, rest)

/-- The items of a bracketed set up to its closing bracket. Every round reads a character. -/
def classItems (flags : Flags) :
    Nat → List (Char × Char) → List Char → Except RegexError (List (Char × Char) × List Char)
  | 0, _, _ => .error .unclosedClass
  | rounds + 1, ranges, s =>
    match skip flags s with
    | [] => .error .unclosedClass
    | ']' :: rest => .ok (ranges, rest)
    | '[' :: rest =>
      match posixClass? rest with
      | some (more, after) => classItems flags rounds (ranges ++ more) after
      | none => .error .nestedClass
    | '&' :: '&' :: _ => .error .classIntersection
    | '-' :: '-' :: _ => .error .classDifference
    | '~' :: '~' :: _ => .error .classSymmetricDifference
    | s => do
      let (more, rest) ← classRange flags s
      classItems flags rounds (ranges ++ more) rest

/-- A bracketed set after its opening bracket. Dashes at its start stand for themselves, and so does
a closing bracket there. -/
def bracketed (flags : Flags) (s : List Char) : Except RegexError (CharSet × List Char) := do
  let s := skip flags s
  if s.isEmpty then throw .unclosedClass
  let negated := s.head? = some '^'
  let s := if negated then skip flags (s.drop 1) else s
  if s.isEmpty then throw .unclosedNegatedClass
  let (dashes, s) := spread flags (· = '-') s
  if s.isEmpty then throw .unclosedClassDash
  let (ranges, s) ←
    match dashes, s with
    | [], ']' :: rest =>
      if (skip flags rest).isEmpty then throw .unclosedBracketClass
      pure ([(']', ']')], rest)
    | dashes, s => pure (dashes.map fun c => (c, c), s)
  let (ranges, rest) ← classItems flags (s.length + 1) ranges s
  let chars := CharSet.ofRanges ranges
  let chars := if flags.ignoreCase then chars.foldCase else chars
  return (if negated then chars.complement else chars, rest)

/-! ## Repetitions -/

/-- Skips the mark of a lazy repetition. -/
def skipLazy (s : List Char) : List Char :=
  match s with
  | '?' :: rest => rest
  | s => s

/-- The bounds of a counted repetition after its opening brace. -/
def counted (flags : Flags) (s : List Char) :
    Except RegexError (Nat × Option Nat × List Char) := do
  let s := skip flags s
  if s.isEmpty then throw .unclosedCount
  let (min, s) ← decimal flags s
  let (max, s) ←
    match s with
    | [] => throw .unclosedCountMin
    | ',' :: rest =>
      match skip flags rest with
      | [] => throw .unclosedCountComma
      | '\x7d' :: _ => pure (none, skip flags rest)
      | rest =>
        let (max, rest) ← decimal flags rest
        if rest.isEmpty then throw .unclosedCountMax
        pure (some max, rest)
    | s => pure (some min, s)
  match s with
  | '\x7d' :: rest =>
    if max.any (· < min) then throw .invalidCountRange
    return (min, max, skipLazy (skip flags rest))
  | _ => throw .invalidCount

/-! ## Groups -/

/-- Can stand in the name of a group. -/
def isGroupNameChar (first : Bool) (c : Char) : Bool :=
  c = '_'
    || (if first then Text.isAlphabetic c
        else Text.isAlphanumeric c || c = '.' || c = '[' || c = ']')

/-- The name of a group up to its closing angle bracket. -/
def groupName (read : List Char) : List Char → Except RegexError (String × List Char)
  | [] => .error (if read.isEmpty then .missingGroupName else .unclosedGroupName)
  | c :: rest =>
    if c = '>' then
      if read.isEmpty then .error .emptyGroupName else .ok (String.ofList read.reverse, rest)
    else if isGroupNameChar read.isEmpty c then groupName (c :: read) rest
    else .error .invalidGroupName

/-- Sets or clears the flag with a letter. The one for Unicode has no effect. -/
def setFlag (flags : Flags) (on : Bool) : Char → Except RegexError Flags
  | 'i' => .ok { flags with ignoreCase := on }
  | 'm' => .ok { flags with multiLine := on }
  | 's' => .ok { flags with dotAll := on }
  | 'U' => .ok { flags with swapGreed := on }
  | 'R' => .ok { flags with carriageReturn := on }
  | 'x' => .ok { flags with verbose := on }
  | 'u' => .ok flags
  | _ => .error .unrecognizedFlag

/-- Flags up to the colon or parenthesis that ends them; `seen` are the letters before, newest
first. -/
def readFlags (flags : Flags) (negate : Bool) (seen : List Char) :
    List Char → Except RegexError (Flags × Char × List Char)
  | [] => .error .unclosedFlags
  | c :: rest => do
    if c = ':' || c = ')' then
      if seen.head? = some '-' then throw .danglingNegation
      return (flags, c, rest)
    else if c = '-' then
      if negate then throw .repeatedNegation
      readFlags flags true (c :: seen) rest
    else
      let flags ← setFlag flags (!negate) c
      if seen.contains c then throw .duplicateFlag
      readFlags flags negate (c :: seen) rest

/-! ## The loop -/

/-- What stood before an open group: branches and expressions, newest first, and flags; and what the
group captures, if it does. -/
structure Frame where
  branches : List Node
  items : List Node
  flags : Flags
  capture : Option Capture

/-- What has been read: open groups, the branches and expressions of the innermost one, its flags,
the names of groups, and how many groups capture. -/
structure Reading where
  frames : List Frame := []
  branches : List Node := []
  items : List Node := []
  flags : Flags := {}
  names : List String := []
  captures : Nat := 0

namespace Reading

/-- Adds an expression. -/
def add (r : Reading) (node : Node) : Reading :=
  { r with items := node :: r.items }

/-- Opens a group whose inside has the given flags. -/
def openGroup (r : Reading) (capture : Option Capture) (inside : Flags) :
    Except RegexError Reading :=
  if nestLimit ≤ r.frames.length then .error .nestedTooDeep
  else
    .ok { r with
      frames := ⟨r.branches, r.items, r.flags, capture⟩ :: r.frames
      branches := []
      items := []
      flags := inside }

/-- Opens a group that captures under the next number. -/
def openCapture (r : Reading) (nameSize : Nat) : Except RegexError Reading :=
  let number := r.captures + 1
  { r with captures := number }.openGroup (some { number, nameSize }) r.flags

/-- The branches of the innermost group with the last one ended. -/
def endBranch (r : Reading) : List Node :=
  Node.concat r.items.reverse :: r.branches

/-- The expression between the innermost open parenthesis and here. -/
def inside (r : Reading) : Node :=
  Node.either r.endBranch.reverse

/-- Closes the innermost group. -/
def closeGroup (r : Reading) : Except RegexError Reading :=
  match r.frames with
  | [] => .error .unopenedGroup
  | frame :: frames =>
    let node :=
      match frame.capture with
      | some c => r.inside.capture c
      | none => r.inside
    .ok { r with
      frames
      branches := frame.branches
      items := node :: frame.items
      flags := frame.flags }

/-- Repeats the last expression. -/
def repeatLast (r : Reading) (missing : RegexError) (min : Nat) (max : Option Nat) :
    Except RegexError Reading :=
  match r.items with
  | [] => .error missing
  | last :: items => .ok { r with items := last.repetition min max :: items }

/-- Reads what follows an opening parenthesis up to the inside of the group. -/
def readOpening (r : Reading) (s : List Char) : Except RegexError (Reading × List Char) := do
  let named (rest : List Char) : Except RegexError (Reading × List Char) := do
    let (name, rest) ← groupName [] rest
    if r.names.contains name then throw .duplicateGroupName
    return (← { r with names := name :: r.names }.openCapture (name.utf8ByteSize + 4), rest)
  match skip r.flags s with
  | '?' :: '=' :: _ | '?' :: '!' :: _ | '?' :: '<' :: '=' :: _ | '?' :: '<' :: '!' :: _ =>
    throw .lookAround
  | '?' :: 'P' :: '<' :: rest => named rest
  | '?' :: '<' :: rest => named rest
  | '?' :: rest =>
    if rest.isEmpty then throw .unclosedGroupQuestion
    let (flags, closing, after) ← readFlags r.flags false [] rest
    if closing = ')' then
      if rest.head? = some ')' then throw .emptyFlags
      return ({ r with flags }, after)
    return (← r.openGroup none flags, after)
  | rest => return (← r.openCapture 0, rest)

/-- Reads an expression that is no group and no repetition. -/
def readItem (r : Reading) (c : Char) (rest : List Char) :
    Except RegexError (Reading × List Char) := do
  match c with
  | '[' =>
    let (chars, rest) ← bracketed r.flags rest
    return (r.add (.set chars), rest)
  | '\\' =>
    let (item, rest) ← escaped r.flags rest
    return (r.add item.node, rest)
  | '.' => return (r.add (.set (dot r.flags)), rest)
  | '^' => return (r.add (.look (lineStart r.flags)), rest)
  | '$' => return (r.add (.look (lineFinish r.flags)), rest)
  | c => return (r.add (Item.ofChar r.flags c).node, rest)

/-- Reads on to the end of the pattern. Every round reads a character. -/
def finish : Nat → Reading → List Char → Except RegexError Node
  | 0, _, _ => .error .unclosedGroup
  | rounds + 1, r, s => do
    match skip r.flags s with
    | [] => if r.frames.isEmpty then return r.inside else throw .unclosedGroup
    | '(' :: rest =>
      let (r, rest) ← r.readOpening rest
      finish rounds r rest
    | ')' :: rest => finish rounds (← r.closeGroup) rest
    | '|' :: rest => finish rounds { r with branches := r.endBranch, items := [] } rest
    | '*' :: rest => finish rounds (← r.repeatLast .missingRepeated 0 none) (skipLazy rest)
    | '+' :: rest => finish rounds (← r.repeatLast .missingRepeated 1 none) (skipLazy rest)
    | '?' :: rest => finish rounds (← r.repeatLast .missingRepeated 0 (some 1)) (skipLazy rest)
    | '\x7b' :: rest =>
      if r.items.isEmpty then throw .missingCounted
      let (min, max, rest) ← counted r.flags rest
      finish rounds (← r.repeatLast .missingCounted min max) rest
    | c :: rest =>
      let (r, rest) ← r.readItem c rest
      finish rounds r rest

end Reading

/-- The expression that a text spells. A malformed text is refused first, then one that nests too
deep, then one whose program is too large. -/
def read (pattern : String) : Except RegexError Regex := do
  let chars := pattern.toList
  let node ← Reading.finish (chars.length + 1) {} chars
  if nestLimit < node.height then throw .nestedTooDeep
  if sizeLimit < node.programSize then throw .tooLarge
  return node.regex

end Sandshell.Regex
