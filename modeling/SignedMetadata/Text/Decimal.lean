/-
  Decimal text of integers.

  A numeral is an optional sign followed by at least one
  ASCII digit; leading zeros are allowed.  `natural?` takes
  a plus sign only, `integer?` either sign.
-/

namespace SignedMetadata.Text

------------------------------------------------------------
-- Unsigned Digits
------------------------------------------------------------

/- The number written by a non-empty run of ASCII digits. -/
def digits? : List Char → Option Nat
| [] => none
| c :: cs =>
    if (c :: cs).all Char.isDigit then
      some (Nat.ofDigitChars 10 (c :: cs) 0)
    else
      none

------------------------------------------------------------
-- Signed Numerals
------------------------------------------------------------

/- The number written by digits after an optional plus sign. -/
def natural? (text : String) : Option Nat :=
  match text.toList with
  | '+' :: cs => digits? cs
  | cs => digits? cs

/- The integer written by digits after an optional sign. -/
def integer? (text : String) : Option Int :=
  match text.toList with
  | '-' :: cs => (digits? cs).map fun n => -(n : Int)
  | '+' :: cs => (digits? cs).map Int.ofNat
  | cs => (digits? cs).map Int.ofNat

/- Decimal numeral of an integer, with a sign only below zero. -/
def ofInteger (i : Int) : String :=
  match i with
  | .ofNat n => String.ofList (Nat.toDigits 10 n)
  | .negSucc n =>
      String.ofList ('-' :: Nat.toDigits 10 (n + 1))

/- Decimal numeral of a natural number. -/
def ofNatural (n : Nat) : String :=
  String.ofList (Nat.toDigits 10 n)

end SignedMetadata.Text
