import Mathlib.Data.List.TakeWhile
import SignedMetadata.Expiry
import SignedMetadata.Proofs.Catalog.Dates
import SignedMetadata.Proofs.Fallible

/-
  Reading groups of digits in dates and times.

  A number is read from digits of ASCII, and where the first
  other character stands, its mark is expected.  So a group
  of digits of any script with its mark behind it is read
  exactly if all of its digits are in ASCII, as the number
  that they write.

  Main declarations:
    * `DateTime.readDigits_mark_iff`
    * `DateTime.readNumber_mark_iff`
    * `DateTime.readYear_mark_iff`
-/

namespace SignedMetadata

open Fallible
open Text (IsGroup)

------------------------------------------------------------
-- Classes of Characters
------------------------------------------------------------

/- No character is in two tables that share no code point. -/
theorem Text.CodePointRanges.not_holds_of_apart
    {one other : Text.CodePointRanges}
    {c : Char}
    (hApart :
      ∀ r ∈ one, ∀ s ∈ other, r.2 < s.1 ∨ s.2 < r.1)
    (hHolds : one.holds c = true) :
    other.holds c = false := by
  rw [← Bool.not_eq_true]
  intro hOther
  rcases List.any_eq_true.mp hHolds with ⟨r, hr, hIn⟩
  rcases List.any_eq_true.mp hOther with ⟨s, hs, hIn'⟩
  rw [Bool.and_eq_true, decide_eq_true_iff,
    decide_eq_true_iff] at hIn hIn'
  have hBetween := hApart r hr s hs
  omega

/- No digit is white space. -/
theorem Text.not_isBlank_of_isDecimalDigit
    {c : Char}
    (hDigit : Text.isDecimalDigit c = true) :
    Text.isBlank c = false := by
  apply Text.CodePointRanges.not_holds_of_apart _ hDigit
  decide

------------------------------------------------------------
-- Groups
------------------------------------------------------------

namespace Text.IsGroup

variable {width : Nat}
variable {group rest : List Char}

/- A group with a width has a first digit. -/
theorem ne_nil
    (hGroup : IsGroup Text.isDecimalDigit width group)
    (hWidth : 0 < width) :
    group ≠ [] := by
  rintro rfl
  exact absurd hGroup.1 (Nat.ne_of_lt hWidth)

/- What is no digit is not in a group. -/
theorem not_mem
    {c : Char}
    (hGroup : IsGroup Text.isDecimalDigit width group)
    (hOther : Text.isDecimalDigit c = false) :
    c ∉ group := by
  intro hMember
  rw [hGroup.2 c hMember] at hOther
  cases hOther

/- Nothing is skipped in front of a group. -/
theorem skipBlank_eq
    (hGroup : IsGroup Text.isDecimalDigit width group)
    (hWidth : 0 < width) :
    DateTime.skipBlank (group ++ rest) = group ++ rest := by
  cases group with
  | nil => exact absurd rfl (hGroup.ne_nil hWidth)
  | cons c group =>
      have hBlank :=
        Text.not_isBlank_of_isDecimalDigit
          (hGroup.2 c List.mem_cons_self)
      exact
        List.dropWhile_cons_of_neg
          (Bool.eq_false_iff.mp hBlank)

end Text.IsGroup

------------------------------------------------------------
-- Digits
------------------------------------------------------------

namespace DateTime

variable {width : Nat}
variable {group rest : List Char}
variable {mark : Char}

/- The digits of ASCII in front are read, if there are any. -/
theorem readDigits_eq_ok_iff
    {n : Nat}
    {cs left : List Char} :
    readDigits (some width) cs = .ok (n, left) ↔
      ∃ ds, (cs.take width).takeWhile Char.isDigit = ds ∧
        ds ≠ [] ∧ Text.number ds ≤ greatestNumber ∧
          n = Text.number ds ∧ left = cs.drop ds.length := by
  unfold readDigits
  dsimp only
  generalize hDs :
    (cs.take width).takeWhile Char.isDigit = ds
  rw [show Nat.ofDigitChars 10 ds 0 = Text.number ds from rfl]
  split_ifs with hNone hNoDigit hLarge
  · subst hNone
    rw [List.take_nil, List.takeWhile_nil] at hDs
    simp [← hDs]
  · simp [hNoDigit]
  · simp [Nat.not_le_of_lt hLarge]
  · simp [hNoDigit, Nat.le_of_not_lt hLarge, eq_comm]

/- In a group, they are read up to another character. -/
theorem readDigits_group_iff
    {n : Nat}
    {left : List Char}
    (hWidth : group.length = width)
    (hMost : width ≤ 18) :
    readDigits (some width) (group ++ rest) =
        .ok (n, left) ↔
      group.takeWhile Char.isDigit ≠ [] ∧
        n = Text.number (group.takeWhile Char.isDigit) ∧
          left = group.dropWhile Char.isDigit ++ rest := by
  have hTake : (group ++ rest).take width = group :=
    List.take_left' hWidth
  have hBelow :
      Text.number (group.takeWhile Char.isDigit) <
        10 ^ (group.takeWhile Char.isDigit).length :=
    Text.number_lt fun c hc => List.mem_takeWhile_imp hc
  have hLength :
      (group.takeWhile Char.isDigit).length ≤ 18 :=
    (List.takeWhile_prefix _).length_le.trans
      (hWidth.trans_le hMost)
  have hPower :=
    Nat.pow_le_pow_right (show 0 < 10 by decide) hLength
  have hSmall :
      Text.number (group.takeWhile Char.isDigit) ≤
        greatestNumber := by
    unfold greatestNumber
    omega
  have hSplit :
      group ++ rest =
        group.takeWhile Char.isDigit ++
          (group.dropWhile Char.isDigit ++ rest) := by
    rw [← List.append_assoc,
      List.takeWhile_append_dropWhile]
  have hDrop :
      (group ++ rest).drop
          (group.takeWhile Char.isDigit).length =
        group.dropWhile Char.isDigit ++ rest :=
    (congrArg (List.drop _) hSplit).trans List.drop_left
  rw [readDigits_eq_ok_iff, hTake]
  constructor
  · rintro ⟨ds, rfl, hSome, _, hNumber, hLeft⟩
    exact ⟨hSome, hNumber, hLeft.trans hDrop⟩
  · rintro ⟨hSome, hNumber, hLeft⟩
    exact
      ⟨_, rfl, hSome, hSmall, hNumber,
        hLeft.trans hDrop.symm⟩

/- What follows a mark is what is left behind it. -/
theorem readChar_eq_ok_iff
    {cs left : List Char} :
    readChar mark cs = .ok left ↔ cs = mark :: left := by
  cases cs with
  | nil => simp [readChar]
  | cons c cs =>
      rw [readChar]
      by_cases hMark : c = mark
      · simp [hMark]
      · simp [hMark]

/-
  A group is read up to its mark exactly if all of its digits
  are in ASCII: the mark is no digit of any script.
-/
theorem readDigits_mark_iff
    (rest : List Char)
    (P : Nat → List Char → Prop)
    (hSome : group ≠ [])
    (hWidth : group.length = width)
    (hMost : width ≤ 18)
    (hMark : mark ∉ group) :
    (∃ n cs,
      readDigits (some width) (group ++ mark :: rest) =
          .ok (n, cs) ∧
        ∃ left, readChar mark cs = .ok left ∧ P n left) ↔
      (∀ c ∈ group, c.isDigit = true) ∧
        P (Text.number group) rest := by
  simp only [readDigits_group_iff hWidth hMost,
    readChar_eq_ok_iff]
  constructor
  · rintro ⟨n, cs, ⟨_, rfl, rfl⟩, left, hLeft, hP⟩
    cases hOther : group.dropWhile Char.isDigit with
    | nil =>
        have hAll : ∀ c ∈ group, c.isDigit = true :=
          List.dropWhile_eq_nil_iff.mp hOther
        rw [hOther, List.nil_append, List.cons.injEq] at hLeft
        rw [List.takeWhile_eq_self_iff.mpr hAll, ← hLeft.2]
          at hP
        exact ⟨hAll, hP⟩
    | cons c others =>
        rw [hOther, List.cons_append, List.cons.injEq]
          at hLeft
        have hMember : c ∈ group := by
          apply List.dropWhile_subset Char.isDigit
          rw [hOther]
          exact List.mem_cons_self
        rw [hLeft.1] at hMember
        exact absurd hMember hMark
  · rintro ⟨hAll, hP⟩
    have hTaken := List.takeWhile_eq_self_iff.mpr hAll
    have hDropped := List.dropWhile_eq_nil_iff.mpr hAll
    rw [hTaken, hDropped]
    exact ⟨_, _, ⟨hSome, rfl, rfl⟩, rest, rfl, hP⟩

------------------------------------------------------------
-- Numbers
------------------------------------------------------------

/- A number is read if it is in its range. -/
theorem readNumber_eq_ok_iff
    {least greatest n : Nat}
    {cs left : List Char} :
    readNumber least greatest cs = .ok (n, left) ↔
      readDigits (some 2) (skipBlank cs) = .ok (n, left) ∧
        least ≤ n ∧ n ≤ greatest := by
  rw [readNumber, bind_eq_ok_iff]
  constructor
  · rintro ⟨⟨m, behind⟩, hRead, hRange⟩
    dsimp only at hRange
    split_ifs at hRange with hIn
    cases hRange
    exact ⟨hRead, hIn⟩
  · rintro ⟨hRead, hIn⟩
    refine ⟨(n, left), hRead, ?_⟩
    dsimp only
    rw [if_pos hIn]
    rfl

/- So is one in a group up to its mark, in ASCII. -/
theorem readNumber_mark_iff
    {least greatest : Nat}
    {P : Nat → List Char → Prop}
    (hGroup : IsGroup Text.isDecimalDigit 2 group)
    (hMark : Text.isDecimalDigit mark = false) :
    (∃ n cs,
      readNumber least greatest (group ++ mark :: rest) =
          .ok (n, cs) ∧
        ∃ left, readChar mark cs = .ok left ∧ P n left) ↔
      (∀ c ∈ group, c.isDigit = true) ∧
        (least ≤ Text.number group ∧
          Text.number group ≤ greatest) ∧
          P (Text.number group) rest := by
  have hDigits :=
    readDigits_mark_iff rest
      (fun n left =>
        (least ≤ n ∧ n ≤ greatest) ∧ P n left)
      (hGroup.ne_nil (by decide)) hGroup.1 (by decide)
      (hGroup.not_mem hMark)
  rw [← hDigits]
  simp only [readNumber_eq_ok_iff,
    hGroup.skipBlank_eq (by decide)]
  constructor
  · rintro ⟨n, cs, ⟨hRead, hIn⟩, left, hChar, hP⟩
    exact ⟨n, cs, hRead, left, hChar, hIn, hP⟩
  · rintro ⟨n, cs, hRead, left, hChar, hIn, hP⟩
    exact ⟨n, cs, ⟨hRead, hIn⟩, left, hChar, hP⟩

/- A year is read from digits without a sign. -/
theorem readYear_group_iff
    {year : Int}
    {left : List Char}
    (hGroup : IsGroup Text.isDecimalDigit 4 group) :
    readYear (group ++ rest) = .ok (year, left) ↔
      ∃ n, readDigits (some 4) (group ++ rest) =
          .ok (n, left) ∧
        (n : Int) ≤ 0x7fffffff ∧ year = n := by
  have hNoSign :
      ∀ sign digits, Text.isDecimalDigit sign = false →
        group ++ rest ≠ sign :: digits := by
    intro sign digits hSign hText
    cases group with
    | nil => exact hGroup.ne_nil (by decide) rfl
    | cons c group =>
        have hDigit := hGroup.2 c List.mem_cons_self
        rw [List.cons_append, List.cons.injEq] at hText
        rw [hText.1, hSign] at hDigit
        cases hDigit
  rw [readYear, hGroup.skipBlank_eq (by decide)]
  split
  · rename_i digits hText
    exact absurd hText (hNoSign '-' digits (by decide))
  · rename_i digits hText
    exact absurd hText (hNoSign '+' digits (by decide))
  · rw [bind_eq_ok_iff]
    constructor
    · rintro ⟨⟨n, behind⟩, hRead, hRange⟩
      change
        (if -0x80000000 ≤ (n : Int) ∧ (n : Int) ≤ 0x7fffffff
          then Except.ok ((n : Int), behind)
          else Except.error DateFault.outOfRange) =
            .ok (year, left) at hRange
      split_ifs at hRange with hIn
      cases hRange
      exact ⟨n, hRead, hIn.2, rfl⟩
    · rintro ⟨n, hRead, hMost, rfl⟩
      have hLeast : -0x80000000 ≤ (n : Int) := by omega
      exact ⟨(n, left), hRead, if_pos ⟨hLeast, hMost⟩⟩

/- So is one in a group up to its mark, in ASCII. -/
theorem readYear_mark_iff
    {P : Int → List Char → Prop}
    (hGroup : IsGroup Text.isDecimalDigit 4 group)
    (hMark : Text.isDecimalDigit mark = false) :
    (∃ year cs,
      readYear (group ++ mark :: rest) = .ok (year, cs) ∧
        ∃ left, readChar mark cs = .ok left ∧
          P year left) ↔
      (∀ c ∈ group, c.isDigit = true) ∧
        P (Text.number group) rest := by
  have hDigits :=
    readDigits_mark_iff rest
      (fun n left => (n : Int) ≤ 0x7fffffff ∧ P n left)
      (hGroup.ne_nil (by decide)) hGroup.1 (by decide)
      (hGroup.not_mem hMark)
  simp only [readYear_group_iff hGroup]
  constructor
  · rintro ⟨_, cs, ⟨n, hRead, hMost, rfl⟩, left, hChar, hP⟩
    rcases
        hDigits.mp ⟨n, cs, hRead, left, hChar, hMost, hP⟩
      with ⟨hAll, _, hP⟩
    exact ⟨hAll, hP⟩
  · rintro ⟨hAll, hP⟩
    have hMost : (Text.number group : Int) ≤ 0x7fffffff := by
      have hBelow := Text.number_lt hAll
      rw [hGroup.1] at hBelow
      omega
    rcases hDigits.mpr ⟨hAll, hMost, hP⟩ with
      ⟨n, cs, hRead, left, hChar, hMost, hP⟩
    exact ⟨_, cs, ⟨n, hRead, hMost, rfl⟩, left, hChar, hP⟩

end DateTime

end SignedMetadata
