import SignedMetadata.Proofs.Expiry.Stamps
import SignedMetadata.Proofs.Json.Printing
import SignedMetadata.Proofs.Text.Decimal

/-
  Dates are printed as they were written.

  Every number of a date with a time is printed with leading
  zeros up to the width of its group, which is the group
  again if its digits are in ASCII.  So what was read of a
  text is printed as the text, and with the offset from UTC
  in place of the last mark.  What is printed depends on the
  instant only, as one date and time has that instant.

  Main declarations:
    * `DateTime.padded_number`
    * `Stamp.zulu_dateTime`
    * `Stamp.isRaw_unzoned`
    * `Expiry.exists_stamp_of_ofPayload`
-/

namespace SignedMetadata

open Text (IsGroup)

------------------------------------------------------------
-- Numbers
------------------------------------------------------------

namespace DateTime

variable {width n : Nat}
variable {group : List Char}

/- The digits of a number with zeros in front. -/
def paddedDigits (width n : Nat) : List Char :=
  List.replicate (width - (Nat.toDigits 10 n).length) '0' ++
    Nat.toDigits 10 n

/- Zeros in front are digits, and do not count. -/
theorem number_paddedDigits (width n : Nat) :
    Text.number (paddedDigits width n) = n := by
  rw [Text.number, paddedDigits, Nat.ofDigitChars_append,
    Nat.ofDigitChars_replicate_zero, Nat.mul_zero,
    Nat.ofDigitChars_ten_toDigits]

/- Below the power of a width, they are a group. -/
theorem isGroup_paddedDigits
    (hWidth : 0 < width)
    (hBelow : n < 10 ^ width) :
    IsGroup Char.isDigit width (paddedDigits width n) := by
  have hLength : (Nat.toDigits 10 n).length ≤ width :=
    (Nat.length_toDigits_le_iff (by decide) hWidth).mpr hBelow
  constructor
  · rw [paddedDigits, List.length_append,
      List.length_replicate]
    omega
  · intro c hc
    rcases List.mem_append.mp hc with hZero | hDigit
    · rw [List.eq_of_mem_replicate hZero]
      rfl
    · exact Text.isDigit_toDigits n c hDigit

/- A group of digits is the padded text of its number. -/
theorem padded_number
    (hGroup : IsGroup Char.isDigit width group)
    (hWidth : 0 < width) :
    padded width (Text.number group) =
      String.ofList group := by
  have hBelow := Text.number_lt hGroup.2
  rw [hGroup.1] at hBelow
  -- groups of one width are told apart by their numbers
  exact
    congrArg String.ofList
      ((Text.strictMonoOn_number width).injOn
        (isGroup_paddedDigits hWidth hBelow) hGroup
        (number_paddedDigits width (Text.number group)))

/- The date and the time without their zone. -/
def unzoned (t : DateTime) : String :=
  dateText t.date ++ "T" ++ t.timeText

/- The mark of the zone may stand behind them. -/
theorem zulu_eq (t : DateTime) :
    t.zulu = t.unzoned ++ "Z" := by
  rfl

/- The offset from UTC may stand behind them. -/
theorem rfc3339_eq (t : DateTime) :
    t.rfc3339 = t.unzoned ++ "+00:00" := by
  rfl

end DateTime

------------------------------------------------------------
-- Stamps
------------------------------------------------------------

namespace Stamp

variable {s : Stamp}

/- The date and time of a stamp are printed as its text. -/
theorem zulu_dateTime (hFits : s.Fits Char.isDigit) :
    s.dateTime.zulu = s.text := by
  rcases fits_iff.mp hFits with
    ⟨hYear, hMonth, hDay, hHour, hMinute, hSecond⟩
  have hBelow := Text.number_lt hYear.2
  rw [hYear.1] at hBelow
  have hRange :
      0 ≤ (Text.number s.year : Int) ∧
        (Text.number s.year : Int) ≤ 9999 := by
    omega
  have hText :
      DateTime.yearText (Text.number s.year) =
        String.ofList s.year := by
    rw [DateTime.yearText, if_pos hRange, Int.natAbs_natCast,
      DateTime.padded_number hYear (by decide)]
  rw [DateTime.zulu, DateTime.dateText, DateTime.timeText]
  dsimp only [dateTime]
  rw [hText, DateTime.padded_number hMonth (by decide),
    DateTime.padded_number hDay (by decide),
    DateTime.padded_number hHour (by decide),
    DateTime.padded_number hMinute (by decide),
    DateTime.padded_number hSecond (by decide)]
  apply String.toList_inj.mp
  simp [text, groups, Catalog.datetimeLayout,
    TextLayout.write]

/- No character of such a text is escaped in a string. -/
theorem isRaw_text (hFits : s.Fits Char.isDigit) :
    Json.IsRaw s.text := by
  have hDigits :
      ∀ c : Char, c.isDigit = true →
        Json.printedChar c = [c] := by
    intro c hDigit
    have hRange := Text.toNat_of_isDigit hDigit
    apply Json.printedChar_of_raw
    · rintro rfl
      cases hDigit
    · rintro rfl
      cases hDigit
    · omega
  rw [Json.IsRaw, text, String.toList_ofList]
  exact
    TextLayout.forall_mem_write (by decide) hDigits hFits

/- Nor is one of what stands in front of its last mark. -/
theorem isRaw_unzoned (hFits : s.Fits Char.isDigit) :
    Json.IsRaw s.dateTime.unzoned := by
  have hText := isRaw_text hFits
  rw [← zulu_dateTime hFits, DateTime.zulu_eq,
    Json.isRaw_append_iff] at hText
  exact hText.1

end Stamp

------------------------------------------------------------
-- Metadata
------------------------------------------------------------

namespace Expiry

variable {p : Value}
variable {role : Role}
variable {t : DateTime}

/- The expiry of checked metadata is that of its stamp. -/
theorem exists_stamp_of_ofPayload
    (hCheck : role.check p = .ok ())
    (hDate : ofPayload p = .ok t) :
    ∃ s : Stamp, s.Fits Char.isDigit ∧
      p.get? "expires" = some (.string s.text) ∧
        s.dateTime.IsValid ∧ t = s.dateTime := by
  rcases exists_stamp hCheck with ⟨s, hFits, hText⟩
  rw [ofPayload_eq_ok_iff hText, Stamp.parse_iff hFits]
    at hDate
  exact ⟨s, hDate.1, hText, hDate.2⟩

end Expiry

end SignedMetadata
