import SignedMetadata.Proofs.Text.Endings
import SignedMetadata.Text.Decimal

/-
  Decimal numerals inside longer texts.

  A numeral does not say itself where it ends.  It is read
  back uniquely when no digit follows it, and its first
  character tells it from every other kind of text.

  Main declarations:
    * `EndsNumeral`
    * `toList_ofInteger`
    * `exists_cons_ofInteger`
    * `ofInteger_append_inj`
-/

namespace SignedMetadata.Text

------------------------------------------------------------
-- Runs of Digits
------------------------------------------------------------

/- No digit stands where a numeral ends. -/
def EndsNumeral (rest : List Char) : Prop :=
  ∀ c ∈ rest.head?, c.isDigit = false

/- A numeral may end at the end of the text. -/
@[simp] theorem endsNumeral_nil : EndsNumeral [] := by
  simp [EndsNumeral]

/- A numeral ends before a character that is no digit. -/
@[simp] theorem endsNumeral_cons
    (c : Char)
    (rest : List Char) :
    EndsNumeral (c :: rest) ↔ c.isDigit = false := by
  simp [EndsNumeral]

/-
  Two runs of digits with the same text in front of them are
  the same run, when no digit follows either.
-/
theorem digits_append_inj
    {ds es r r' : List Char}
    (hDs : ∀ c ∈ ds, c.isDigit = true)
    (hEs : ∀ c ∈ es, c.isDigit = true)
    (hR : EndsNumeral r)
    (hR' : EndsNumeral r')
    (hEq : ds ++ r = es ++ r') :
    ds = es ∧ r = r' := by
  exact run_append_inj hDs hEs hR hR' hEq

/- The digits of a number are decimal digits. -/
theorem isDigit_toDigits
    (n : Nat) :
    ∀ c ∈ Nat.toDigits 10 n, c.isDigit = true := by
  intro c hc
  exact Nat.isDigit_of_mem_toDigits (by decide) (by decide) hc

/- Numbers with the same digits are equal. -/
theorem toDigits_inj
    {m n : Nat}
    (hEq : Nat.toDigits 10 m = Nat.toDigits 10 n) :
    m = n := by
  have hValue := congrArg (Nat.ofDigitChars 10 · 0) hEq
  simpa using hValue

------------------------------------------------------------
-- Numerals of Integers
------------------------------------------------------------

/- A numeral is a sign, below zero, and digits. -/
theorem toList_ofInteger (i : Int) :
    (ofInteger i).toList =
      (if i < 0 then ['-'] else []) ++
        Nat.toDigits 10 i.natAbs := by
  cases i with
  | ofNat n =>
      have hSign : ¬ Int.ofNat n < 0 := by simp
      simp [ofInteger]
  | negSucc n =>
      simp [ofInteger, Int.negSucc_lt_zero]

/- A numeral starts with a minus sign or a digit. -/
theorem exists_cons_ofInteger (i : Int) :
    ∃ c cs,
      (ofInteger i).toList = c :: cs ∧
        (c = '-' ∨ c.isDigit = true) := by
  rw [toList_ofInteger]
  by_cases hSign : i < 0
  · exact
      ⟨'-', Nat.toDigits 10 i.natAbs, by simp [hSign],
        Or.inl rfl⟩
  · cases hDigits : Nat.toDigits 10 i.natAbs with
    | nil => exact absurd hDigits Nat.toDigits_ne_nil
    | cons c cs =>
        refine ⟨c, cs, by simp [hSign], Or.inr ?_⟩
        exact isDigit_toDigits i.natAbs c (by simp [hDigits])

/- A numeral below zero is not one from zero on. -/
theorem minus_append_ne_digits
    {ds es r r' : List Char}
    (hEs : ∀ c ∈ es, c.isDigit = true)
    (hNonempty : es ≠ []) :
    '-' :: ds ++ r ≠ es ++ r' := by
  cases es with
  | nil => exact absurd rfl hNonempty
  | cons e es =>
      intro hEq
      rw [List.cons_append, List.cons_append,
        List.cons.injEq] at hEq
      have hDigit : e.isDigit = true := hEs e (by simp)
      rw [← hEq.1] at hDigit
      exact absurd hDigit (by decide)

/-
  Integers whose numerals start the same text are equal, when
  no digit follows either numeral.
-/
theorem ofInteger_append_inj
    {i j : Int}
    {r r' : List Char}
    (hR : EndsNumeral r)
    (hR' : EndsNumeral r')
    (hEq :
      (ofInteger i).toList ++ r = (ofInteger j).toList ++ r') :
    i = j ∧ r = r' := by
  rw [toList_ofInteger, toList_ofInteger] at hEq
  have hI := isDigit_toDigits i.natAbs
  have hJ := isDigit_toDigits j.natAbs
  by_cases hNegI : i < 0
  · by_cases hNegJ : j < 0
    · rw [if_pos hNegI, if_pos hNegJ, List.append_assoc,
        List.append_assoc, List.append_right_inj] at hEq
      have hDigits := digits_append_inj hI hJ hR hR' hEq
      have hAbs := toDigits_inj hDigits.1
      exact ⟨by omega, hDigits.2⟩
    · rw [if_pos hNegI, if_neg hNegJ] at hEq
      exact absurd hEq
        (minus_append_ne_digits hJ Nat.toDigits_ne_nil)
  · by_cases hNegJ : j < 0
    · rw [if_neg hNegI, if_pos hNegJ] at hEq
      exact absurd hEq.symm
        (minus_append_ne_digits hI Nat.toDigits_ne_nil)
    · rw [if_neg hNegI, if_neg hNegJ] at hEq
      have hDigits := digits_append_inj hI hJ hR hR' hEq
      have hAbs := toDigits_inj hDigits.1
      exact ⟨by omega, hDigits.2⟩

end SignedMetadata.Text
