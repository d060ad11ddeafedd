import SignedMetadata.Proofs.Json.Scanning
import SignedMetadata.Reading.Literal

/-
  Integers of number literals.

  A literal is the literal of an integer exactly if it is a
  sign and digits and the integer is in range: such a text
  has neither a fraction nor an exponent.  Every numeral of
  an integer in range is such a literal.

  Main declarations:
    * `integerOfLiteral_eq_ok_iff`
    * `integerOfLiteral_of_numeral`
-/

namespace SignedMetadata

open Json (Numeral Decimal)

------------------------------------------------------------
-- Signs and Digits
------------------------------------------------------------

/- Neither a sign nor a digit marks a fraction. -/
theorem not_marksFraction_of_isDigit
    {c : Char}
    (hDigit : c = '-' ∨ c = '+' ∨ c.isDigit = true) :
    ¬ marksFraction c = true := by
  intro hMark
  simp only [marksFraction, Bool.or_eq_true,
    decide_eq_true_eq] at hMark
  rcases hMark with (rfl | rfl) | rfl <;>
    exact absurd hDigit (by decide)

/- Only digits are read as a number. -/
theorem isDigit_of_digits?
    {cs : List Char}
    (hDigits : Text.digits? cs ≠ none) :
    ∀ c ∈ cs, c.isDigit = true := by
  cases cs with
  | nil => exact absurd rfl hDigits
  | cons d ds =>
      rw [Text.digits?] at hDigits
      split_ifs at hDigits with hAll
      · exact List.all_eq_true.mp hAll
      · exact absurd rfl hDigits

/- Only a sign and digits are read as an integer. -/
theorem isDigit_of_integer?
    {literal : String}
    (hInteger : Text.integer? literal ≠ none) :
    ∀ c ∈ literal.toList,
      c = '-' ∨ c = '+' ∨ c.isDigit = true := by
  unfold Text.integer? at hInteger
  split at hInteger
  · rename_i cs hText
    have hDigits : Text.digits? cs ≠ none := by
      intro hNone
      simp [hNone] at hInteger
    rw [hText, List.forall_mem_cons]
    exact
      ⟨Or.inl rfl, fun c hc =>
        Or.inr (Or.inr (isDigit_of_digits? hDigits c hc))⟩
  · rename_i cs hText
    have hDigits : Text.digits? cs ≠ none := by
      intro hNone
      simp [hNone] at hInteger
    rw [hText, List.forall_mem_cons]
    exact
      ⟨Or.inr (Or.inl rfl), fun c hc =>
        Or.inr (Or.inr (isDigit_of_digits? hDigits c hc))⟩
  · have hDigits : Text.digits? literal.toList ≠ none := by
      intro hNone
      simp [hNone] at hInteger
    exact fun c hc =>
      Or.inr (Or.inr (isDigit_of_digits? hDigits c hc))

/- An integer in range is read without its literal's marks. -/
theorem integerOfLiteral_eq_ok_iff
    {literal : String}
    {i : Int} :
    integerOfLiteral literal = .ok i ↔
      Text.integer? literal = some i ∧ Value.InRange i := by
  unfold integerOfLiteral
  by_cases hMark :
      literal.toList.any marksFraction = true
  · have hNone : Text.integer? literal = none := by
      by_contra hInteger
      rcases List.any_eq_true.mp hMark with ⟨c, hc, hMark⟩
      exact
        not_marksFraction_of_isDigit
          (isDigit_of_integer? hInteger c hc) hMark
    rw [if_pos hMark]
    simp [hNone]
  · rw [if_neg hMark]
    cases Text.integer? literal with
    | none => simp
    | some j =>
        by_cases hRange : Value.InRange j
        · simp only [if_pos hRange, Except.ok.injEq,
            Option.some.injEq, iff_self_and]
          rintro rfl
          exact hRange
        · simp only [if_neg hRange, reduceCtorEq,
            Option.some.injEq, false_iff]
          rintro ⟨rfl, hRange'⟩
          exact hRange hRange'

------------------------------------------------------------
-- Numerals
------------------------------------------------------------

/- Decimal digits are read as their number. -/
theorem digits?_of_decimal
    {n : Nat}
    {ds : List Char}
    (hDecimal : Decimal n ds) :
    Text.digits? ds = some n := by
  rcases Json.Phase.exists_cons_of_decimal hDecimal with
    ⟨d, rest, rfl, _⟩
  have hDigits : (d :: rest).all Char.isDigit = true :=
    List.all_eq_true.mpr hDecimal.digits
  rw [Text.digits?, if_pos hDigits, hDecimal.value]

/- A numeral is read as its integer. -/
theorem integer?_of_numeral
    {i : Int}
    {literal : String}
    (hNumeral : Numeral i literal.toList) :
    Text.integer? literal = some i := by
  unfold Text.integer?
  generalize literal.toList = cs at hNumeral
  cases hNumeral with
  | negative hDecimal =>
      simp [digits?_of_decimal hDecimal]
  | unsigned hDecimal =>
      have hValue := digits?_of_decimal hDecimal
      split
      · have hSign := hDecimal.digits '-' (by simp)
        exact absurd hSign (by decide)
      · have hSign := hDecimal.digits '+' (by simp)
        exact absurd hSign (by decide)
      · rw [hValue]
        rfl

/- A numeral in range is the literal of its integer. -/
theorem integerOfLiteral_of_numeral
    {i : Int}
    {literal : String}
    (hNumeral : Numeral i literal.toList)
    (hRange : Value.InRange i) :
    integerOfLiteral literal = .ok i := by
  exact
    integerOfLiteral_eq_ok_iff.mpr
      ⟨integer?_of_numeral hNumeral, hRange⟩

end SignedMetadata
