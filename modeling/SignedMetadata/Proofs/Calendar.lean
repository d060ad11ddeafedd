import Mathlib.Data.Int.Order.Basic
import Mathlib.Data.List.Lex
import SignedMetadata.Calendar
import SignedMetadata.Proofs.Lexicographic

/-
  The order of dates and times.

  A day that exists in its month comes before all days of
  later months, and a month before all days of later years.
  So dates follow each other as their years, months and days
  do, and times as their hours, minutes and seconds: also a
  leap second, which lies behind the second before it and in
  front of the minute after it.

  Main declarations:
    * `Instant.Before`
    * `Date.dayNumber_lt`
    * `DateTime.IsValid`
    * `DateTime.before_iff`
    * `DateTime.instant_inj`
    * `DateTime.leapSecond_between`
-/

namespace SignedMetadata

------------------------------------------------------------
-- Instants
------------------------------------------------------------

namespace Instant

variable {s t : Instant}

/- An instant is before another, which is not before or at it. -/
def Before (s t : Instant) : Prop :=
  t.atOrBefore s = false

/- Seconds count first, nanoseconds then. -/
theorem before_iff :
    s.Before t ↔
      s.seconds < t.seconds ∨
        s.seconds = t.seconds ∧ s.nanos < t.nanos := by
  simp only [Before, atOrBefore, Bool.or_eq_false_iff,
    Bool.and_eq_false_imp, decide_eq_false_iff_not,
    decide_eq_true_eq]
  omega

/- No instant is both before another and after it. -/
theorem Before.not_before
    (hBefore : s.Before t) :
    ¬ t.Before s := by
  rw [before_iff] at hBefore ⊢
  omega

/- No instant is before itself. -/
theorem Before.ne
    (hBefore : s.Before t) :
    s ≠ t := by
  rintro rfl
  exact hBefore.not_before hBefore

end Instant

------------------------------------------------------------
-- Years
------------------------------------------------------------

namespace Date

/- How many days a year has. -/
def daysInYear (year : Int) : Nat :=
  if isLeap year then 366 else 365

/- A year is leap by its divisors. -/
theorem isLeap_iff {year : Int} :
    isLeap year = true ↔
      year % 4 = 0 ∧ (year % 100 ≠ 0 ∨ year % 400 = 0) := by
  rw [isLeap, Bool.and_eq_true, Bool.or_eq_true,
    decide_eq_true_iff, decide_eq_true_iff,
    decide_eq_true_iff]

/- The days before a year, with its leap days. -/
theorem daysBeforeYear_eq (year : Int) :
    daysBeforeYear year =
      365 * (year - 1) + (year - 1) / 4 - (year - 1) / 100 +
        (year - 1) / 400 := by
  rfl

/- A year begins behind the days of the one before. -/
theorem daysBeforeYear_succ (year : Int) :
    daysBeforeYear (year + 1) =
      daysBeforeYear year + daysInYear year := by
  rw [daysBeforeYear_eq, daysBeforeYear_eq, daysInYear]
  split_ifs with hLeap <;>
    rw [isLeap_iff] at hLeap <;>
    omega

/- All days of a year come before those of later years. -/
theorem daysBeforeYear_add_le
    {year later : Int}
    (hLater : year < later) :
    daysBeforeYear year + daysInYear year ≤
      daysBeforeYear later := by
  rw [← daysBeforeYear_succ, daysBeforeYear_eq,
    daysBeforeYear_eq]
  omega

------------------------------------------------------------
-- Months
------------------------------------------------------------

variable {year : Int}

/- A month begins behind the days of the one before. -/
theorem daysBeforeMonth_succ
    {month : Nat}
    (hMonth : 1 ≤ month) :
    daysBeforeMonth year (month + 1) =
      daysBeforeMonth year month +
        daysInMonth year month := by
  rcases Nat.exists_eq_add_of_le' hMonth with ⟨past, rfl⟩
  rw [daysBeforeMonth, Nat.add_sub_cancel,
    List.range_succ, List.foldl_append, daysBeforeMonth,
    Nat.add_sub_cancel]
  rfl

/- No month has more than thirty-one days. -/
theorem daysInMonth_le
    (year : Int)
    (month : Nat) :
    daysInMonth year month ≤ 31 := by
  unfold daysInMonth
  split_ifs <;> decide

/- Months begin in their order. -/
theorem daysBeforeMonth_le
    {month later : Nat}
    (hMonth : 1 ≤ month)
    (hLater : month ≤ later) :
    daysBeforeMonth year month ≤
      daysBeforeMonth year later := by
  induction later, hLater using Nat.le_induction with
  | base => exact Nat.le_refl _
  | succ later hLater ih =>
      rw [daysBeforeMonth_succ (hMonth.trans hLater)]
      exact ih.trans (Nat.le_add_right _ _)

/- Twelve months are a year. -/
theorem daysBeforeMonth_thirteen (year : Int) :
    daysBeforeMonth year 13 = daysInYear year := by
  have hDays :
      daysBeforeMonth year 13 =
        0 + 31 + daysInMonth year 2 + 31 + 30 + 31 + 30 +
          31 + 31 + 30 + 31 + 30 + 31 :=
    rfl
  rw [hDays, daysInMonth, if_pos rfl, daysInYear]
  split_ifs <;> rfl

/- A day that exists lies before the end of its month. -/
theorem daysBeforeMonth_add_le
    (year : Int)
    {month later : Nat}
    (hMonth : 1 ≤ month)
    (hLater : month < later) :
    daysBeforeMonth year month + daysInMonth year month ≤
      daysBeforeMonth year later := by
  rw [← daysBeforeMonth_succ hMonth]
  exact daysBeforeMonth_le (Nat.le_add_left 1 month) hLater

------------------------------------------------------------
-- Days
------------------------------------------------------------

variable {d e : Date}

/- Year, month and day. -/
def parts (d : Date) : List Int :=
  [d.year, d.month, d.day]

/- Only equal days have equal parts. -/
theorem parts_inj :
    d.parts = e.parts ↔ d = e := by
  constructor
  · intro hParts
    rcases d with ⟨_, _, _⟩
    rcases e with ⟨_, _, _⟩
    simpa [parts, Int.ofNat_inj] using hParts
  · rintro rfl
    rfl

/- A day that exists lies before the end of its year. -/
theorem IsValid.le_daysInYear (hDay : d.IsValid) :
    daysBeforeMonth d.year d.month + d.day ≤
      daysInYear d.year := by
  rcases hDay with ⟨hMonth, hLast, _, hExists⟩
  have hYear : d.month < 13 := by omega
  have hEnd :=
    daysBeforeMonth_add_le d.year hMonth hYear
  rw [daysBeforeMonth_thirteen] at hEnd
  omega

/- Days are counted in the order of years, months and days. -/
theorem dayNumber_lt
    (hDay : d.IsValid)
    (hLater : e.IsValid)
    (hParts : d.parts < e.parts) :
    d.dayNumber < e.dayNumber := by
  have hYear := hDay.le_daysInYear
  rcases hDay with ⟨hMonth, _, hFirst, hExists⟩
  rcases hLater with ⟨_, _, hFirst', _⟩
  unfold dayNumber
  simp only [parts, List.cons_lt_cons_iff, List.not_lt_nil,
    and_false, or_false] at hParts
  rcases hParts with hYears | ⟨hSame, hMonths | hDays⟩
  · have hEnd := daysBeforeYear_add_le hYears
    omega
  · have hEnd :=
      daysBeforeMonth_add_le e.year hMonth
        (Int.ofNat_lt.mp hMonths)
    rw [hSame] at hExists ⊢
    omega
  · rcases hDays with ⟨hMonths, hDays⟩
    rw [hSame, Int.ofNat_inj.mp hMonths]
    omega

end Date

------------------------------------------------------------
-- Times
------------------------------------------------------------

namespace DateTime

variable {t u : DateTime}

/- The day exists and the time is one of its seconds. -/
def IsValid (t : DateTime) : Prop :=
  t.date.IsValid ∧ t.hour ≤ 23 ∧ t.minute ≤ 59 ∧
    t.second ≤ 60

/- Hour, minute and second. -/
def timeParts (t : DateTime) : List Int :=
  [t.hour, t.minute, t.second]

/- The parts of the date and those of the time. -/
def parts (t : DateTime) : List Int :=
  t.date.parts ++ t.timeParts

/- Only equal times have equal parts. -/
theorem parts_inj :
    t.parts = u.parts ↔ t = u := by
  constructor
  · intro hParts
    rcases t with ⟨⟨_, _, _⟩, _, _, _⟩
    rcases u with ⟨⟨_, _, _⟩, _, _, _⟩
    simpa [parts, Date.parts, timeParts, and_assoc,
      Int.ofNat_inj] using hParts
  · rintro rfl
    rfl

/- The part of a day before a time, in seconds. -/
def secondOfDay (t : DateTime) : Nat :=
  t.hour * 3600 + t.minute * 60 + min t.second 59

/- An instant is a second of a day. -/
theorem instant_seconds (t : DateTime) :
    t.instant.seconds =
      t.date.dayNumber * 86400 + t.secondOfDay := by
  unfold instant secondOfDay
  dsimp only
  omega

/- A time that exists lies within its day. -/
theorem IsValid.secondOfDay_lt (hTime : t.IsValid) :
    t.secondOfDay < 86400 := by
  rcases hTime with ⟨_, hHour, hMinute, _⟩
  unfold secondOfDay
  omega

/- A time on an earlier day is before. -/
theorem before_of_dayNumber_lt
    (hTime : t.IsValid)
    (hDays : t.date.dayNumber < u.date.dayNumber) :
    t.instant.Before u.instant := by
  have hRest := hTime.secondOfDay_lt
  rw [Instant.before_iff, instant_seconds, instant_seconds]
  left
  omega

/- On one day, times follow as hours, minutes and seconds. -/
theorem before_of_time_lt
    (hFirst : t.IsValid)
    (hSecond : u.IsValid)
    (hDate : t.date = u.date)
    (hTime : t.timeParts < u.timeParts) :
    t.instant.Before u.instant := by
  rcases hFirst with ⟨_, _, hMinute, hLast⟩
  rcases hSecond with ⟨_, _, _, hLast'⟩
  simp only [timeParts, List.cons_lt_cons_iff,
    List.not_lt_nil, and_false, or_false] at hTime
  rw [Instant.before_iff, instant_seconds, instant_seconds,
    hDate]
  unfold secondOfDay instant
  dsimp only
  split_ifs <;> omega

/- Times on one day or on two follow as their parts do. -/
theorem before_of_parts_lt
    (hFirst : t.IsValid)
    (hSecond : u.IsValid)
    (hParts : t.parts < u.parts) :
    t.instant.Before u.instant := by
  have hLength :
      t.date.parts.length = u.date.parts.length := by
    rfl
  unfold parts at hParts
  rw [append_lt_append_iff hLength] at hParts
  rcases hParts with hDate | ⟨hDate, hTime⟩
  · exact
      before_of_dayNumber_lt hFirst
        (Date.dayNumber_lt hFirst.1 hSecond.1 hDate)
  · exact
      before_of_time_lt hFirst hSecond
        (Date.parts_inj.mp hDate) hTime

/- Times follow each other exactly as their parts do. -/
theorem before_iff
    (hFirst : t.IsValid)
    (hSecond : u.IsValid) :
    t.instant.Before u.instant ↔ t.parts < u.parts := by
  refine ⟨?_, before_of_parts_lt hFirst hSecond⟩
  intro hBefore
  rcases lt_trichotomy t.parts u.parts with
    hLess | hSame | hGreater
  · exact hLess
  · rw [parts_inj.mp hSame] at hBefore
    exact absurd hBefore hBefore.not_before
  · exact
      absurd (before_of_parts_lt hSecond hFirst hGreater)
        hBefore.not_before

/- Only equal times start at the same instant. -/
theorem instant_inj
    (hFirst : t.IsValid)
    (hSecond : u.IsValid) :
    t.instant = u.instant ↔ t = u := by
  constructor
  · intro hInstant
    rcases lt_trichotomy t.parts u.parts with
      hLess | hSame | hGreater
    · have hBefore :=
        before_of_parts_lt hFirst hSecond hLess
      exact absurd hInstant hBefore.ne
    · exact parts_inj.mp hSame
    · have hBefore :=
        before_of_parts_lt hSecond hFirst hGreater
      exact absurd hInstant.symm hBefore.ne
  · rintro rfl
    rfl

------------------------------------------------------------
-- Leap Seconds
------------------------------------------------------------

/- The instant at which the next minute starts. -/
def nextMinute (t : DateTime) : Instant where
  seconds := t.date.dayNumber * 86400 + t.hour * 3600 +
    t.minute * 60 + 60
  nanos := 0

/-
  A leap second lies strictly between the second before it
  and the next minute.
-/
theorem leapSecond_between (hLeap : t.second = 60) :
    Instant.Before (instant { t with second := 59 })
        t.instant ∧
      t.instant.Before t.nextMinute := by
  rw [Instant.before_iff, Instant.before_iff]
  unfold instant nextMinute
  dsimp only
  rw [hLeap]
  constructor
  · rw [if_pos rfl, if_neg (by decide)]
    exact Or.inr ⟨rfl, by decide⟩
  · left
    omega

end DateTime

end SignedMetadata
