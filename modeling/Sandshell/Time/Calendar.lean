/-!
# Calendar

Days of the Gregorian calendar and seconds of a day, counted from the start of 1970.
-/

namespace Sandshell

/-- A second in Universal Time, counted from the start of 1970. -/
structure Instant where
  seconds : Int
deriving DecidableEq, Repr, Inhabited

/-- A day of the calendar. -/
structure Date where
  year : Int
  /-- From 1. -/
  month : Nat
  /-- From 1. -/
  day : Nat
deriving DecidableEq, Repr, Inhabited

namespace Date

/-- Has a 29th of February. -/
def isLeapYear (year : Int) : Bool :=
  year % 4 = 0 && (year % 100 ≠ 0 || year % 400 = 0)

/-- The number of days before the first of a month. -/
def daysBeforeMonth (year : Int) (month : Nat) : Nat :=
  let common := [0, 31, 59, 90, 120, 151, 181, 212, 243, 273, 304, 334].getD (month - 1) 0
  if isLeapYear year && 2 < month then common + 1 else common

/-- The number of days from the start of 1970 to the start of a year. -/
def daysBeforeYear (year : Int) : Int :=
  let y := year - 1
  365 * (year - 1970) + (y / 4 - y / 100 + y / 400) - 477

/-- The day with a number from the start of 1970. A year is guessed by its mean length; the guess
is at most one too high. -/
def ofDays (days : Int) : Date :=
  let guess := 1970 + (days * 400 + 400 * 2) / 146097
  let year :=
    if days < daysBeforeYear guess then guess - 1
    else if daysBeforeYear (guess + 1) ≤ days then guess + 1
    else guess
  let dayOfYear := (days - daysBeforeYear year).toNat
  let month := (List.range 12).countP fun m => daysBeforeMonth year (m + 1) ≤ dayOfYear
  ⟨year, month, dayOfYear - daysBeforeMonth year month + 1⟩

/-- The number of a day in its year, from 1. -/
def dayOfYear (d : Date) : Nat :=
  daysBeforeMonth d.year d.month + d.day

/-- The number of a day from the start of 1970. -/
def toDays (d : Date) : Int :=
  daysBeforeYear d.year + d.dayOfYear - 1

/-- The day of the week, a Sunday being 0. -/
def weekday (d : Date) : Nat :=
  ((d.toDays + 4) % 7).toNat

/-- The number of the week that starts on the given weekday; days before the first such weekday
are in week 0. -/
def weekFrom (first : Nat) (d : Date) : Nat :=
  let sinceFirst := (d.weekday + 7 - first) % 7
  (d.dayOfYear - 1 + 7 - sinceFirst) / 7

/-- Year and number of the week that starts on a Monday and belongs to the year of its Thursday. -/
def isoWeek (d : Date) : Int × Nat :=
  let thursday := ofDays (d.toDays + 3 - ((d.weekday + 6) % 7 : Nat))
  (thursday.year, (thursday.dayOfYear - 1) / 7 + 1)

end Date

namespace Instant

/-- The day of an instant. -/
def date (t : Instant) : Date :=
  Date.ofDays (t.seconds / 86400)

/-- The seconds since the start of the day. -/
def secondOfDay (t : Instant) : Nat :=
  (t.seconds % 86400).toNat

/-- The hour of the day. -/
def hour (t : Instant) : Nat := t.secondOfDay / 3600

/-- The minute of the hour. -/
def minute (t : Instant) : Nat := t.secondOfDay / 60 % 60

/-- The second of the minute. -/
def second (t : Instant) : Nat := t.secondOfDay % 60

end Instant

end Sandshell
