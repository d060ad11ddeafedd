import SignedMetadata.Text.Decimal

/-
  Dates and times of the Gregorian calendar, in UTC.

  The calendar is extended to all years, with a year zero.
  The last minute of an hour may have a second sixty: a leap
  second, which counts as a second billion of nanoseconds in
  the second before it.  `DateTime.instant` counts seconds
  from the start of 1970.
-/

namespace SignedMetadata

------------------------------------------------------------
-- Instants
------------------------------------------------------------

/- A time as seconds since 1970 and nanoseconds on top. -/
structure Instant where
  seconds : Int
  nanos : Nat
deriving DecidableEq, Repr

namespace Instant

/- An instant is at or before another. -/
def atOrBefore (s t : Instant) : Bool :=
  s.seconds < t.seconds ||
    (s.seconds = t.seconds && s.nanos ≤ t.nanos)

end Instant

------------------------------------------------------------
-- Dates
------------------------------------------------------------

/- A day by year, month and day of the month. -/
structure Date where
  year : Int
  month : Nat
  day : Nat
deriving DecidableEq, Repr

namespace Date

/- The year has a twenty-ninth of February. -/
def isLeap (year : Int) : Bool :=
  year % 4 = 0 && (year % 100 ≠ 0 || year % 400 = 0)

/- How many days a month has. -/
def daysInMonth (year : Int) (month : Nat) : Nat :=
  if month = 2 then
    if isLeap year then 29 else 28
  else if month = 4 ∨ month = 6 ∨ month = 9 ∨ month = 11 then
    30
  else
    31

/- The month is one of twelve and the day exists in it. -/
def IsValid (date : Date) : Prop :=
  1 ≤ date.month ∧ date.month ≤ 12 ∧ 1 ≤ date.day ∧
    date.day ≤ daysInMonth date.year date.month

instance (date : Date) : Decidable date.IsValid := by
  unfold IsValid
  infer_instance

/- Days from the start of year one to the start of a year. -/
def daysBeforeYear (year : Int) : Int :=
  let past := year - 1
  365 * past + past / 4 - past / 100 + past / 400

/- Days from the start of a year to that of a month. -/
def daysBeforeMonth (year : Int) (month : Nat) : Nat :=
  (List.range (month - 1)).foldl
    (fun days i => days + daysInMonth year (i + 1)) 0

/- Days since the start of 1970. -/
def dayNumber (date : Date) : Int :=
  daysBeforeYear date.year - daysBeforeYear 1970 +
    daysBeforeMonth date.year date.month + (date.day - 1)

end Date

------------------------------------------------------------
-- Dates with a Time
------------------------------------------------------------

/- A second of a day, with sixty for a leap second. -/
structure DateTime where
  date : Date
  hour : Nat
  minute : Nat
  second : Nat
deriving DecidableEq, Repr

namespace DateTime

/- The instant at which the second starts. -/
def instant (t : DateTime) : Instant where
  seconds :=
    t.date.dayNumber * 86400 + t.hour * 3600 +
      t.minute * 60 + min t.second 59
  nanos := if t.second = 60 then 1000000000 else 0

/- A number with leading zeros up to a width. -/
def padded (width n : Nat) : String :=
  let digits := Nat.toDigits 10 n
  String.ofList
    (List.replicate (width - digits.length) '0' ++ digits)

/- A year, with a sign unless it has at most four digits. -/
def yearText (year : Int) : String :=
  if 0 ≤ year ∧ year ≤ 9999 then padded 4 year.natAbs
  else
    (if year < 0 then "-" else "+") ++ padded 4 year.natAbs

/- Year, month and day. -/
def dateText (date : Date) : String :=
  yearText date.year ++ "-" ++ padded 2 date.month ++ "-" ++
    padded 2 date.day

/- Hour, minute and second. -/
def timeText (t : DateTime) : String :=
  padded 2 t.hour ++ ":" ++ padded 2 t.minute ++ ":" ++
    padded 2 t.second

/- The usual form with `Z` for UTC. -/
def zulu (t : DateTime) : String :=
  dateText t.date ++ "T" ++ t.timeText ++ "Z"

/- The form with the offset from UTC. -/
def rfc3339 (t : DateTime) : String :=
  dateText t.date ++ "T" ++ t.timeText ++ "+00:00"

/- The form that people read. -/
def spoken (t : DateTime) : String :=
  dateText t.date ++ " " ++ t.timeText ++ " UTC"

end DateTime

end SignedMetadata
