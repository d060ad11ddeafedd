import SignedMetadata.Proofs.Calendar
import SignedMetadata.Proofs.Expiry.Groups
import SignedMetadata.Proofs.Role

/-
  When checked metadata expires.

  Metadata of any role has a text of expiry with six groups
  of digits.  It is read exactly if its digits are in ASCII
  and the date and the time exist; the groups then are their
  parts.  Dates and times that are read follow each other as
  the bytes of their texts do.

  Main declarations:
    * `Stamp`
    * `Stamp.parse_iff`
    * `Stamp.before_iff`
    * `Expiry.ofPayload_exact_and_ordered`
-/

namespace SignedMetadata

open Fallible
open Text (IsGroup)

------------------------------------------------------------
-- Stamps
------------------------------------------------------------

/- The groups of digits in the text of a date with a time. -/
structure Stamp where
  year : List Char
  month : List Char
  day : List Char
  hour : List Char
  minute : List Char
  second : List Char
deriving DecidableEq, Repr

namespace Stamp

variable {s s' : Stamp}
variable {digit : Char → Bool}

/- The groups in the order of the text. -/
def groups (s : Stamp) : List (List Char) :=
  [s.year, s.month, s.day, s.hour, s.minute, s.second]

/- The text with the groups. -/
def text (s : Stamp) : String :=
  String.ofList (Catalog.datetimeLayout.write s.groups)

/- The groups have their widths and digits of one kind. -/
def Fits
    (digit : Char → Bool)
    (s : Stamp) : Prop :=
  Catalog.datetimeLayout.Fits digit s.groups

/- The date and the time that the groups write. -/
def dateTime (s : Stamp) : DateTime where
  date :=
    ⟨Text.number s.year, Text.number s.month,
      Text.number s.day⟩
  hour := Text.number s.hour
  minute := Text.number s.minute
  second := Text.number s.second

/- The year has four digits, every other group has two. -/
theorem fits_iff :
    s.Fits digit ↔
      IsGroup digit 4 s.year ∧ IsGroup digit 2 s.month ∧
        IsGroup digit 2 s.day ∧ IsGroup digit 2 s.hour ∧
          IsGroup digit 2 s.minute ∧
            IsGroup digit 2 s.second := by
  simp only [Fits, TextLayout.Fits, Catalog.datetimeLayout,
    groups, List.forall₂_cons, List.Forall₂.nil, and_true]

/- The pattern of the catalog describes the texts of stamps. -/
theorem accepts_datetimePattern_iff
    {text : String} :
    Catalog.datetimePattern.accepts text = true ↔
      ∃ s : Stamp, s.Fits Text.isDecimalDigit ∧
        text = s.text := by
  rw [Catalog.accepts_datetimePattern_iff]
  constructor
  · rintro ⟨groups, hFits, hText⟩
    rcases hFits with _ | ⟨hYear, _ | ⟨hMonth, _ | ⟨hDay,
      _ | ⟨hHour, _ | ⟨hMinute, _ | ⟨hSecond, _ | _⟩⟩⟩⟩⟩⟩
    refine
      ⟨⟨_, _, _, _, _, _⟩,
        fits_iff.mpr
          ⟨hYear, hMonth, hDay, hHour, hMinute, hSecond⟩, ?_⟩
    rw [← String.ofList_toList (s := text), hText]
    rfl
  · rintro ⟨s, hFits, rfl⟩
    exact ⟨s.groups, hFits, String.toList_ofList⟩

------------------------------------------------------------
-- Reading
------------------------------------------------------------

/-
  A text is read exactly if all of its digits are in ASCII
  and the date and the time exist that they write.
-/
theorem parse_iff
    {t : DateTime}
    (hFits : s.Fits Text.isDecimalDigit) :
    DateTime.parse s.text = .ok t ↔
      s.Fits Char.isDigit ∧ s.dateTime.IsValid ∧
        t = s.dateTime := by
  rcases fits_iff.mp hFits with
    ⟨hYear, hMonth, hDay, hHour, hMinute, hSecond⟩
  have hDash : Text.isDecimalDigit '-' = false := by decide
  have hTee : Text.isDecimalDigit 'T' = false := by decide
  have hColon : Text.isDecimalDigit ':' = false := by decide
  have hZulu : Text.isDecimalDigit 'Z' = false := by decide
  rw [DateTime.parse, text, String.toList_ofList]
  simp only [bind_eq_ok_iff, Prod.exists]
  change
    (∃ year cs,
      DateTime.readYear
          (s.year ++ '-' :: (s.month ++ '-' :: (s.day ++
            'T' :: (s.hour ++ ':' :: (s.minute ++
              ':' :: (s.second ++ ['Z'])))))) =
        .ok (year, cs) ∧ _) ↔ _
  -- one group after another, each with its mark
  rw [DateTime.readYear_mark_iff hYear hDash,
    DateTime.readNumber_mark_iff hMonth hDash,
    DateTime.readNumber_mark_iff hDay hTee,
    DateTime.readNumber_mark_iff hHour hColon,
    DateTime.readNumber_mark_iff hMinute hColon,
    DateTime.readNumber_mark_iff hSecond hZulu,
    if_neg (not_not_intro rfl)]
  constructor
  · rintro
      ⟨hY, hM, _, hD, _, hH, ⟨_, hHours⟩, hI, ⟨_, hMinutes⟩,
        hS, ⟨_, hSeconds⟩, hEnd⟩
    split_ifs at hEnd with hDate
    have hAscii : s.Fits Char.isDigit :=
      fits_iff.mpr
        ⟨⟨hYear.1, hY⟩, ⟨hMonth.1, hM⟩, ⟨hDay.1, hD⟩,
          ⟨hHour.1, hH⟩, ⟨hMinute.1, hI⟩, ⟨hSecond.1, hS⟩⟩
    exact
      ⟨hAscii, ⟨hDate.1, hHours, hMinutes, hSeconds⟩,
        (Except.ok.inj hEnd).symm⟩
  · rintro
      ⟨hAscii, ⟨hDate, hHours, hMinutes, hSeconds⟩, rfl⟩
    rcases fits_iff.mp hAscii with
      ⟨hY, hM, hD, hH, hI, hS⟩
    have hBelow := Text.number_lt hY.2
    rw [hY.1] at hBelow
    have hYears :
        DateTime.leastYear ≤ (Text.number s.year : Int) ∧
          (Text.number s.year : Int) ≤
            DateTime.greatestYear := by
      unfold DateTime.leastYear DateTime.greatestYear
      omega
    have hDays : Text.number s.day ≤ 31 :=
      hDate.2.2.2.trans (Date.daysInMonth_le _ _)
    exact
      ⟨hY.2, hM.2, ⟨hDate.1, hDate.2.1⟩, hD.2,
        ⟨hDate.2.2.1, hDays⟩, hH.2,
        ⟨Nat.zero_le _, hHours⟩, hI.2,
        ⟨Nat.zero_le _, hMinutes⟩, hS.2,
        ⟨Nat.zero_le _, hSeconds⟩, if_pos ⟨hDate, hYears⟩⟩

------------------------------------------------------------
-- Order
------------------------------------------------------------

/- The parts of a time are the numbers of the groups. -/
theorem parts_dateTime (s : Stamp) :
    s.dateTime.parts = TextLayout.numbers s.groups := by
  rfl

variable (hFirst : s.Fits Char.isDigit)
variable (hSecond : s'.Fits Char.isDigit)
variable (hTime : s.dateTime.IsValid)
variable (hTime' : s'.dateTime.IsValid)

include hFirst hSecond hTime hTime'

/- Times that are read follow each other as their bytes. -/
theorem before_iff :
    s.dateTime.instant.Before s'.dateTime.instant ↔
      Text.bytes s.text < Text.bytes s'.text := by
  rw [DateTime.before_iff hTime hTime', parts_dateTime,
    parts_dateTime, text, text,
    TextLayout.bytes_write_lt_iff hFirst hSecond]

/- They are the same exactly if their bytes are. -/
theorem instant_eq_iff :
    s.dateTime.instant = s'.dateTime.instant ↔
      Text.bytes s.text = Text.bytes s'.text := by
  rw [DateTime.instant_inj hTime hTime',
    ← DateTime.parts_inj, parts_dateTime, parts_dateTime,
    text, text,
    TextLayout.bytes_write_inj hFirst hSecond]

end Stamp

------------------------------------------------------------
-- Metadata
------------------------------------------------------------

namespace Expiry

variable {p q : Value}
variable {role : Role}

/- The text of expiry is what is read. -/
theorem ofPayload_eq_ok_iff
    {text : String}
    {t : DateTime}
    (hText : p.get? "expires" = some (.string text)) :
    ofPayload p = .ok t ↔ DateTime.parse text = .ok t := by
  rw [ofPayload, hText]
  dsimp only
  cases DateTime.parse text with
  | ok u => simp
  | error fault => simp

/- Checked metadata has a stamp as its text of expiry. -/
theorem exists_stamp
    (hCheck : role.check p = .ok ()) :
    ∃ s : Stamp, s.Fits Text.isDecimalDigit ∧
      p.get? "expires" = some (.string s.text) := by
  rcases Role.expires_mem_shape role with
    ⟨name, fields, hObject, hField⟩
  have hShape := Role.check_iff_describes.mp hCheck
  rw [hObject] at hShape
  rcases hShape.required hField rfl with ⟨w, hGet, hDate⟩
  rcases Shape.describes_pattern_iff.mp hDate with
    ⟨text, rfl, hFound⟩
  rcases Stamp.accepts_datetimePattern_iff.mp hFound with
    ⟨s, hFits, rfl⟩
  exact ⟨s, hFits, hGet⟩

/-
  The expiry of checked metadata is read exactly if all the
  digits of its text are in ASCII and the date and the time
  exist that they write.  What is read is before, at or after
  what is read of other checked metadata just as the bytes of
  their texts compare, and a leap second lies strictly between
  the second before it and the next minute.
-/
theorem ofPayload_exact_and_ordered
    (hCheck : role.check p = .ok ()) :
    ∃ s : Stamp,
      s.Fits Text.isDecimalDigit ∧
      p.get? "expires" = some (.string s.text) ∧
      (∀ t,
        ofPayload p = .ok t ↔
          s.Fits Char.isDigit ∧ s.dateTime.IsValid ∧
            t = s.dateTime) ∧
      (∀ other : Role, ∀ q text t u,
        other.check q = .ok () →
        q.get? "expires" = some (.string text) →
        ofPayload p = .ok t → ofPayload q = .ok u →
          (t.instant.Before u.instant ↔
            Text.bytes s.text < Text.bytes text) ∧
          (t.instant = u.instant ↔
            Text.bytes s.text = Text.bytes text) ∧
          (u.instant.Before t.instant ↔
            Text.bytes text < Text.bytes s.text)) ∧
      ∀ t, ofPayload p = .ok t → t.second = 60 →
        Instant.Before
            (DateTime.instant { t with second := 59 })
            t.instant ∧
          t.instant.Before t.nextMinute := by
  have hRead :
      ∀ {v : Value} {s : Stamp} {t : DateTime},
        s.Fits Text.isDecimalDigit →
        v.get? "expires" = some (.string s.text) →
          (ofPayload v = .ok t ↔
            s.Fits Char.isDigit ∧ s.dateTime.IsValid ∧
              t = s.dateTime) := by
    intro v s t hFits hText
    rw [ofPayload_eq_ok_iff hText, Stamp.parse_iff hFits]
  rcases exists_stamp hCheck with ⟨s, hFits, hText⟩
  refine ⟨s, hFits, hText, fun t => hRead hFits hText, ?_,
    fun t _ hLeap => DateTime.leapSecond_between hLeap⟩
  intro other q text t u hOther hText' hFirst hSecond
  rcases exists_stamp hOther with ⟨s', hFits', hStamp⟩
  rw [hText', Option.some.injEq, Value.string.injEq]
    at hStamp
  subst hStamp
  rcases (hRead hFits hText).mp hFirst with
    ⟨hAscii, hTime, rfl⟩
  rcases (hRead hFits' hText').mp hSecond with
    ⟨hAscii', hTime', rfl⟩
  exact
    ⟨Stamp.before_iff hAscii hAscii' hTime hTime',
      Stamp.instant_eq_iff hAscii hAscii' hTime hTime',
      Stamp.before_iff hAscii' hAscii hTime' hTime⟩

/- A timestamp that expires at a text. -/
def expiring (text : String) : Value :=
  .mapping
    [("_type", .string "Timestamp"),
      ("expires", .string text), ("meta", .mapping []),
      ("version", .integer 1)]

/-
  A leap second at the end of a year comes before the year
  that follows; with other digits, its text is not read.
-/
theorem ofPayload_exact_and_ordered_leap :
    Role.timestamp.check (expiring "2016-12-31T23:59:60Z") =
        .ok () ∧
      ofPayload (expiring "2016-12-31T23:59:60Z") =
        .ok ⟨⟨2016, 12, 31⟩, 23, 59, 60⟩ ∧
      Instant.Before
        (DateTime.instant ⟨⟨2016, 12, 31⟩, 23, 59, 60⟩)
        (DateTime.instant ⟨⟨2017, 1, 1⟩, 0, 0, 0⟩) ∧
      Role.timestamp.check (expiring "2016-12-31T23:59:6٠Z") =
        .ok () ∧
      ∀ t,
        ofPayload (expiring "2016-12-31T23:59:6٠Z") ≠
          .ok t := by
  have hCheck :
      Role.timestamp.check (expiring "2016-12-31T23:59:60Z") =
        .ok () := by
    decide +kernel
  have hLater :
      Role.timestamp.check (expiring "2017-01-01T00:00:00Z") =
        .ok () := by
    decide +kernel
  have hOther :
      Role.timestamp.check (expiring "2016-12-31T23:59:6٠Z") =
        .ok () := by
    decide +kernel
  have hLeap :
      ofPayload (expiring "2016-12-31T23:59:60Z") =
        .ok ⟨⟨2016, 12, 31⟩, 23, 59, 60⟩ := by
    decide +kernel
  have hRejected :
      (ofPayload (expiring "2016-12-31T23:59:6٠Z")).isOk =
        false := by
    decide +kernel
  rcases ofPayload_exact_and_ordered hCheck with
    ⟨s, _, hText, _, hOrder, _⟩
  have hStamp : "2016-12-31T23:59:60Z" = s.text :=
    Value.string.inj (Option.some.inj hText)
  have hBefore :=
    hOrder .timestamp (expiring "2017-01-01T00:00:00Z")
      "2017-01-01T00:00:00Z" _ ⟨⟨2017, 1, 1⟩, 0, 0, 0⟩
      hLater (by decide +kernel) hLeap (by decide +kernel)
  rw [← hStamp] at hBefore
  refine
    ⟨hCheck, hLeap, hBefore.1.mpr (by decide +kernel),
      hOther, ?_⟩
  intro t hRead
  rw [hRead] at hRejected
  cases hRejected

end Expiry

end SignedMetadata
