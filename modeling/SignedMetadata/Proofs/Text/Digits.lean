import Mathlib.Algebra.Ring.Nat
import Mathlib.Data.Char
import Mathlib.Data.List.Lex
import Mathlib.Order.Lattice

/-
  Digits in the order of their numbers.

  Groups of digits with one width compare as the numbers that
  they write.

  Main declarations:
    * `IsGroup`
    * `number`
    * `strictMonoOn_number`
-/

namespace SignedMetadata.Text

------------------------------------------------------------
-- Numbers
------------------------------------------------------------

/- A group has so many characters, all digits of a kind. -/
def IsGroup
    (digit : Char → Bool)
    (width : Nat)
    (group : List Char) : Prop :=
  group.length = width ∧ ∀ c ∈ group, digit c = true

/- The number that digits write. -/
def number (ds : List Char) : Nat :=
  Nat.ofDigitChars 10 ds 0

/- The first digit counts most. -/
theorem number_cons
    (d : Char)
    (ds : List Char) :
    number (d :: ds) =
      10 ^ ds.length * (d.toNat - 48) + number ds := by
  rw [number, Nat.ofDigitChars_cons, Nat.mul_zero,
    Nat.zero_add, Nat.ofDigitChars_eq_ofDigitChars_zero]
  rfl

variable {ds es : List Char}

/- A digit is one of ten characters. -/
theorem toNat_of_isDigit
    {d : Char}
    (hDigit : d.isDigit = true) :
    48 ≤ d.toNat ∧ d.toNat < 58 := by
  rw [Char.isDigit, Bool.and_eq_true, decide_eq_true_iff,
    decide_eq_true_iff, ge_iff_le, UInt32.le_iff_toNat_le,
    UInt32.le_iff_toNat_le] at hDigit
  exact ⟨hDigit.1, Nat.lt_succ_of_le hDigit.2⟩

/- Digits write a number below the power of their length. -/
theorem number_lt
    (hDs : ∀ d ∈ ds, d.isDigit = true) :
    number ds < 10 ^ ds.length := by
  induction ds with
  | nil => exact Nat.one_pos
  | cons d ds ih =>
      rw [List.forall_mem_cons] at hDs
      have hDigit := toNat_of_isDigit hDs.1
      have hRest := ih hDs.2
      have hFirst : d.toNat - 48 ≤ 9 := by omega
      have hMost :=
        Nat.mul_le_mul_left (10 ^ ds.length) hFirst
      rw [number_cons, List.length_cons, Nat.pow_succ]
      omega

/- Digits in order write numbers in order. -/
theorem number_lt_of_lt
    (hDs : ∀ d ∈ ds, d.isDigit = true)
    (hEs : ∀ e ∈ es, e.isDigit = true)
    (hLength : ds.length = es.length)
    (hLess : ds < es) :
    number ds < number es := by
  induction ds generalizing es with
  | nil =>
      rw [List.eq_nil_of_length_eq_zero hLength.symm]
        at hLess
      cases hLess
  | cons d ds ih =>
      cases es with
      | nil => cases hLength
      | cons e es =>
          rw [List.forall_mem_cons] at hDs hEs
          have hTail := Nat.succ.inj hLength
          rw [number_cons, number_cons, hTail]
          rcases List.cons_lt_cons_iff.mp hLess with
            hFirst | ⟨rfl, hRest⟩
          · have hDigit := toNat_of_isDigit hDs.1
            have hDigits : d.toNat < e.toNat := hFirst
            have hMore : d.toNat - 48 + 1 ≤ e.toNat - 48 := by
              omega
            have hLeast :=
              Nat.mul_le_mul_left (10 ^ es.length) hMore
            have hBelow := number_lt hDs.2
            rw [hTail] at hBelow
            rw [Nat.mul_succ] at hLeast
            omega
          · exact
              Nat.add_lt_add_left
                (ih hDs.2 hEs.2 hTail hRest) _

/- So groups of one width are ordered as their numbers. -/
theorem strictMonoOn_number (width : Nat) :
    StrictMonoOn number
      {group | IsGroup Char.isDigit width group} := by
  intro ds hDs es hEs hLess
  exact
    number_lt_of_lt hDs.2 hEs.2 (hDs.1.trans hEs.1.symm)
      hLess

end SignedMetadata.Text
