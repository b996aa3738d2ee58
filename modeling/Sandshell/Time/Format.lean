import Sandshell.Time.Calendar

/-!
# Formatting times

Templates in which a percent sign and a letter stand for a part of a time. A dash, an underscore or
a zero between them changes the padding of a single number.
-/

namespace Sandshell

/-- What fills a number up to its width. -/
inductive Padding where
  | bare
  | blank
  | zero
deriving DecidableEq, Repr, Inhabited

/-- A part of a time as a template gives it. -/
inductive TimeField where
  | text (s : String)
  | number (width : Nat) (padding : Padding) (value : Int)
deriving DecidableEq, Repr, Inhabited

namespace TimeField

/-- A number with at least `width` digits; years beyond four digits have a sign. -/
def digits (width : Nat) (padding : Padding) (value : Int) : String :=
  let plain := toString value.natAbs
  let signText := if value < 0 then "-" else if width = 4 && 9999 < value then "+" else ""
  let fill (c : Char) (n : Nat) : String := String.ofList (List.replicate n c)
  let width := if signText = "" then width else width + 1
  let missing := width - plain.length - signText.length
  match padding with
  | .bare => signText ++ plain
  | .zero => signText ++ fill '0' missing ++ plain
  | .blank => fill ' ' missing ++ signText ++ plain

/-- The text of a part. -/
def render : TimeField → String
  | .text s => s
  | .number width padding value => digits width padding value

end TimeField

/-- The names of the months. -/
def monthNames : List String :=
  ["January", "February", "March", "April", "May", "June", "July", "August", "September",
    "October", "November", "December"]

/-- The names of the weekdays, Sunday first. -/
def weekdayNames : List String :=
  ["Sunday", "Monday", "Tuesday", "Wednesday", "Thursday", "Friday", "Saturday"]

/-- The first three letters of a name. -/
def shortName (name : String) : String :=
  String.ofList (name.toList.take 3)

namespace Instant

/-- The single number or name that a letter stands for. -/
def single? (t : Instant) (letter : Char) : Option TimeField :=
  let d := t.date
  let two (n : Int) : Option TimeField := some (.number 2 .zero n)
  let blankTwo (n : Int) : Option TimeField := some (.number 2 .blank n)
  let hour12 : Nat := if t.hour % 12 = 0 then 12 else t.hour % 12
  match letter with
  | 'Y' => some (.number 4 .zero d.year)
  | 'C' => two (d.year / 100)
  | 'y' => two (d.year % 100)
  | 'G' => some (.number 4 .zero d.isoWeek.1)
  | 'g' => two (d.isoWeek.1 % 100)
  | 'q' => some (.number 1 .bare ((d.month + 2) / 3 : Nat))
  | 'm' => two d.month
  | 'd' => two d.day
  | 'e' => blankTwo d.day
  | 'j' => some (.number 3 .zero d.dayOfYear)
  | 'U' => two (d.weekFrom 0)
  | 'W' => two (d.weekFrom 1)
  | 'V' => two d.isoWeek.2
  | 'u' => some (.number 1 .bare (if d.weekday = 0 then 7 else (d.weekday : Int)))
  | 'w' => some (.number 1 .bare d.weekday)
  | 'H' => two t.hour
  | 'k' => blankTwo t.hour
  | 'I' => two hour12
  | 'l' => blankTwo hour12
  | 'M' => two t.minute
  | 'S' => two t.second
  | 'f' => some (.number 9 .zero 0)
  | 's' => some (.number 1 .bare t.seconds)
  | 'a' => some (.text (shortName (weekdayNames.getD d.weekday "")))
  | 'A' => some (.text (weekdayNames.getD d.weekday ""))
  | 'b' | 'h' => some (.text (shortName (monthNames.getD (d.month - 1) "")))
  | 'B' => some (.text (monthNames.getD (d.month - 1) ""))
  | 'p' => some (.text (if t.hour < 12 then "AM" else "PM"))
  | 'P' => some (.text (if t.hour < 12 then "am" else "pm"))
  | 'Z' => some (.text "UTC")
  | 'z' => some (.text "+0000")
  | 'n' => some (.text "\n")
  | 't' => some (.text "\t")
  | '%' => some (.text "%")
  | _ => none

/-- The letters that a letter is short for, with the text between them. -/
def compound? (letter : Char) : Option (List (Char × String)) :=
  match letter with
  | 'D' | 'x' => some [('m', "/"), ('d', "/"), ('y', "")]
  | 'F' => some [('Y', "-"), ('m', "-"), ('d', "")]
  | 'R' => some [('H', ":"), ('M', "")]
  | 'T' | 'X' => some [('H', ":"), ('M', ":"), ('S', "")]
  | 'r' => some [('I', ":"), ('M', ":"), ('S', " "), ('p', "")]
  | 'v' => some [('e', "-"), ('b', "-"), ('Y', "")]
  | 'c' => some [('a', " "), ('b', " "), ('e', " "), ('H', ":"), ('M', ":"), ('S', " "), ('Y', "")]
  | '+' =>
    some [('Y', "-"), ('m', "-"), ('d', "T"), ('H', ":"), ('M', ":"), ('S', "+00:00")]
  | _ => none

/-- The text that a letter stands for. -/
def letter? (t : Instant) (letter : Char) : Option String :=
  match t.single? letter, compound? letter with
  | some part, _ => some part.render
  | none, some parts =>
    let texts? := parts.mapM fun (part, after) => do
      let field ← t.single? part
      return field.render ++ after
    texts?.map String.join
  | none, none => none

/-- The text of a number in another padding; `none` if the letter is no number. -/
def padded? (t : Instant) (padding : Padding) (letter : Char) : Option String :=
  match t.single? letter with
  | some (.number width _ value) => some (TimeField.digits width padding value)
  | _ => none

/-- The digits of a second's fraction that a directive gives, with the text after it. -/
def fraction? : List Char → Option (String × List Char)
  | '.' :: 'f' :: rest => some ("", rest)
  | '.' :: '3' :: 'f' :: rest => some (".000", rest)
  | '.' :: '6' :: 'f' :: rest => some (".000000", rest)
  | '.' :: '9' :: 'f' :: rest => some (".000000000", rest)
  | '3' :: 'f' :: rest => some ("000", rest)
  | '6' :: 'f' :: rest => some ("000000", rest)
  | '9' :: 'f' :: rest => some ("000000000", rest)
  | _ => none

/-- The offset from Universal Time that a directive with colons gives, with the text after it. -/
def offset? : List Char → Option (String × List Char)
  | ':' :: 'z' :: rest => some ("+00:00", rest)
  | ':' :: ':' :: 'z' :: rest => some ("+00:00:00", rest)
  | ':' :: ':' :: ':' :: 'z' :: rest => some ("+00", rest)
  | _ => none

/-- The text of a directive after its percent sign, with the text after it. -/
def directive? (t : Instant) (s : List Char) : Option (String × List Char) :=
  match s with
  | '-' :: letter :: rest => (t.padded? .bare letter).map (·, rest)
  | '_' :: letter :: rest => (t.padded? .blank letter).map (·, rest)
  | '0' :: letter :: rest => (t.padded? .zero letter).map (·, rest)
  | letter :: rest =>
    match t.letter? letter with
    | some text => some (text, rest)
    | none => (fraction? s).or (offset? s)
  | [] => none

/-- What is left of a directive is shorter than it. -/
theorem length_of_directive? {t : Instant} {s rest : List Char} {text : String}
    (h : t.directive? s = some (text, rest)) : rest.length < s.length := by
  unfold directive? at h
  split at h
  iterate 3
    simp only [Option.map_eq_some_iff, Prod.mk.injEq] at h
    obtain ⟨_, -, -, rfl⟩ := h
    simp only [List.length_cons]
    omega
  · split at h
    · simp only [Option.some.injEq, Prod.mk.injEq] at h
      obtain ⟨-, rfl⟩ := h
      simp
    · rw [Option.or_eq_some_iff] at h
      rcases h with h | ⟨-, h⟩
      · unfold fraction? at h
        split at h <;> simp_all <;> omega
      · unfold offset? at h
        split at h <;> simp_all <;> omega
  · simp at h

/-- A time in a template; `none` if the template is malformed. -/
def format? (t : Instant) (template : List Char) : Option String :=
  match template with
  | [] => some ""
  | '%' :: rest =>
    match _directive : t.directive? rest with
    | none => none
    | some (text, after) => (format? t after).map (text ++ ·)
  | c :: rest => (format? t rest).map (String.singleton c ++ ·)
termination_by template.length
decreasing_by
  all_goals simp only [List.length_cons]
  · have := length_of_directive? _directive
    omega
  · omega

end Instant

end Sandshell
