import SignedMetadata.Proofs.Json.Spelling

/-
  The grammar of JSON texts, with all their numbers.

  A number has a sign or none, digits, and may have a
  fraction and an exponent; its literal keeps all of this,
  but for the exponent, whose letter becomes small and which
  gets a sign.  All other tokens are written as they are
  spelled, and white space may stand around every token.

  Main declarations:
    * `WrittenNumber`
    * `WrittenToken`
    * `WrittenTokens`
    * `SpelledTokens.written`
-/

namespace SignedMetadata

namespace Json

------------------------------------------------------------
-- Numbers
------------------------------------------------------------

/- Decimal digits, at least one. -/
structure Digits (ds : List Char) : Prop where
  nonempty : ds ≠ []
  digits : ∀ d ∈ ds, d.isDigit = true

/- A point and digits after it, or nothing. -/
inductive Fraction : List Char → Prop where
| none : Fraction []
| point
    {ds : List Char} (hDigits : Digits ds) :
    Fraction ('.' :: ds)

/- An exponent as it is kept and as it is written. -/
inductive Exponent : List Char → List Char → Prop where
| none : Exponent [] []
| unsigned
    {mark : Char} {ds : List Char}
    (hMark : mark = 'e' ∨ mark = 'E')
    (hDigits : Digits ds) :
    Exponent ('e' :: '+' :: ds) (mark :: ds)
| signed
    {mark sign : Char} {ds : List Char}
    (hMark : mark = 'e' ∨ mark = 'E')
    (hSign : sign = '+' ∨ sign = '-')
    (hDigits : Digits ds) :
    Exponent ('e' :: sign :: ds) (mark :: sign :: ds)

/- A number without a sign, as it is kept and written. -/
inductive WrittenMagnitude :
    List Char → List Char → Prop where
| parts
    {n : Nat} {ds fraction kept exponent : List Char}
    (hWhole : Decimal n ds)
    (hFraction : Fraction fraction)
    (hExponent : Exponent kept exponent) :
    WrittenMagnitude (ds ++ (fraction ++ kept))
      (ds ++ (fraction ++ exponent))

/- A number as it is kept and as it is written. -/
inductive WrittenNumber :
    List Char → List Char → Prop where
| unsigned
    {kept cs : List Char}
    (hMagnitude : WrittenMagnitude kept cs) :
    WrittenNumber kept cs
| negative
    {kept cs : List Char}
    (hMagnitude : WrittenMagnitude kept cs) :
    WrittenNumber ('-' :: kept) ('-' :: cs)

/- The digits of a number are written as they are kept. -/
theorem Decimal.written
    {n : Nat}
    {ds : List Char}
    (hDecimal : Decimal n ds) :
    WrittenMagnitude ds ds := by
  have hParts :=
    WrittenMagnitude.parts hDecimal .none .none
  rw [List.append_nil, List.append_nil] at hParts
  exact hParts

/- A numeral is written as it is kept. -/
theorem Numeral.written
    {i : Int}
    {cs : List Char}
    (hNumeral : Numeral i cs) :
    WrittenNumber cs cs := by
  cases hNumeral with
  | unsigned hDecimal => exact .unsigned hDecimal.written
  | negative hDecimal => exact .negative hDecimal.written

------------------------------------------------------------
-- Tokens
------------------------------------------------------------

/- The ways to write a token. -/
inductive WrittenToken : Token → List Char → Prop where
| number
    {kept cs : List Char}
    (hNumber : WrittenNumber kept cs) :
    WrittenToken (.number (String.ofList kept)) cs
| spelled
    {token : Token} {cs : List Char}
    (hToken : SpelledToken token cs) :
    WrittenToken token cs

/- The ways to write tokens, with space around each. -/
inductive WrittenTokens : List Token → List Char → Prop where
| nil
    {space : List Char} (hSpace : White space) :
    WrittenTokens [] space
| cons
    {token : Token} {tokens : List Token}
    {space cs rest : List Char}
    (hSpace : White space)
    (hToken : WrittenToken token cs)
    (hRest : WrittenTokens tokens rest) :
    WrittenTokens (token :: tokens) (space ++ (cs ++ rest))

/- Spelled tokens follow the grammar. -/
theorem SpelledTokens.written
    {tokens : List Token}
    {cs : List Char}
    (hTokens : SpelledTokens tokens cs) :
    WrittenTokens tokens cs := by
  induction hTokens with
  | nil hSpace => exact .nil hSpace
  | cons hSpace hToken _ ih =>
      exact .cons hSpace (.spelled hToken) ih

end Json

end SignedMetadata
