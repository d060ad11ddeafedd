import SignedMetadata.FloatingPoint.Parse
import SignedMetadata.FloatingPoint.Shortest
import SignedMetadata.Text.Decimal

/-
  Floating-point numbers as text.

  `FloatingPoint.literal?` writes a number literal that is
  marked as a fraction or by an exponent; numbers near one
  are written by position.  `FloatingPoint.plain` always
  writes by position, and whole numbers without a point.
-/

namespace SignedMetadata

namespace FloatingPoint

------------------------------------------------------------
-- Positions
------------------------------------------------------------

/- A run of zeros. -/
def zeros (count : Nat) : List Char :=
  List.replicate count '0'

/- The digits with a point after some of them. -/
def pointed (digits : List Char) (before : Nat) : List Char :=
  digits.take before ++ '.' :: digits.drop before

/-
  Digits by position, when the point stands `point` places
  after the first one.  Whole numbers end with `whole`.
-/
def positional
    (whole digits : List Char)
    (point : Int) : List Char :=
  if point ≤ 0 then
    '0' :: '.' :: zeros (-point).toNat ++ digits
  else if point.toNat < digits.length then
    pointed digits point.toNat
  else
    digits ++ zeros (point.toNat - digits.length) ++ whole

/- Digits with one before the point, and an exponent. -/
def scientific
    (digits : List Char)
    (point : Int) : List Char :=
  let shown :=
    if digits.length ≤ 1 then digits else pointed digits 1
  let exponent := point - 1
  let sign := if exponent < 0 then '-' else '+'
  shown ++ 'e' :: sign :: Nat.toDigits 10 exponent.natAbs

------------------------------------------------------------
-- Literals
------------------------------------------------------------

/-
  Where the point may stand in a literal that is written by
  position.
-/
structure PointRange where
  least : Int
  greatest : Int

/- The range of a format: wider before than after the point. -/
def pointRange (format : FloatFormat) : PointRange :=
  if format = .binary32 then ⟨-5, 13⟩ else ⟨-4, 16⟩

/- The sign before a number. -/
def signText (negative : Bool) : List Char :=
  if negative then ['-'] else []

/- The number literal of a finite number. -/
def literal?
    (format : FloatFormat) : FloatingPoint → Option String
| .nan => none
| .infinite _ => none
| .finite negative significand exponent =>
    if significand = 0 then
      some (String.ofList (signText negative ++ "0.0".toList))
    else
      let decimal :=
        format.shortest .even significand exponent
      let digits := Nat.toDigits 10 decimal.coefficient
      let point := decimal.exponent + digits.length
      let range := pointRange format
      let body :=
        if range.least ≤ point ∧ point ≤ range.greatest then
          positional ".0".toList digits point
        else
          scientific digits point
      some (String.ofList (signText negative ++ body))

/- A number by position, whole numbers without a point. -/
def plain (format : FloatFormat) : FloatingPoint → String
| .nan => "NaN"
| .infinite negative =>
    String.ofList (signText negative ++ "inf".toList)
| .finite negative significand exponent =>
    if significand = 0 then
      String.ofList (signText negative ++ ['0'])
    else
      let decimal := format.shortest .up significand exponent
      let digits := Nat.toDigits 10 decimal.coefficient
      let point := decimal.exponent + digits.length
      String.ofList
        (signText negative ++ positional [] digits point)

end FloatingPoint

end SignedMetadata
