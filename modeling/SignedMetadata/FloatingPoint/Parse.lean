import SignedMetadata.FloatingPoint.Basic
import SignedMetadata.Text.Decimal

/-
  Floating-point numbers from decimal text.

  A text is an optional sign and then a name (`nan`, `inf` or
  `infinity`, in any case) or digits with an optional point
  and an optional exponent.  At least one digit stands before
  or after the point.
-/

namespace SignedMetadata

namespace FloatingPoint

------------------------------------------------------------
-- Decimal Numerals
------------------------------------------------------------

/- The exponent after a numeral, zero if there is none. -/
def exponentPart? : List Char → Option Int
| [] => some 0
| c :: cs =>
    if c = 'e' ∨ c = 'E' then
      Text.integer? (String.ofList cs)
    else
      none

/- A coefficient and a power of ten from digits. -/
def decimal? (cs : List Char) : Option (Nat × Int) :=
  let whole := cs.takeWhile Char.isDigit
  let (fraction, rest) :=
    match cs.dropWhile Char.isDigit with
    | '.' :: ds =>
        (ds.takeWhile Char.isDigit,
          ds.dropWhile Char.isDigit)
    | ds => ([], ds)
  match Text.digits? (whole ++ fraction), exponentPart? rest with
  | some coefficient, some exponent =>
      some (coefficient, exponent - fraction.length)
  | _, _ => none

------------------------------------------------------------
-- Signed Texts
------------------------------------------------------------

/- The number of a text without sign. -/
def unsigned?
    (format : FloatFormat)
    (negative : Bool)
    (cs : List Char) : Option FloatingPoint :=
  let name := (String.ofList cs).toLower
  if name = "nan" then some .nan
  else if name = "inf" ∨ name = "infinity" then
    some (.infinite negative)
  else
    (decimal? cs).map fun (coefficient, exponent) =>
      format.ofDecimal negative coefficient exponent

/- The number of a format nearest to what a text writes. -/
def parse?
    (format : FloatFormat)
    (text : String) : Option FloatingPoint :=
  match text.toList with
  | '-' :: cs => unsigned? format true cs
  | '+' :: cs => unsigned? format false cs
  | cs => unsigned? format false cs

end FloatingPoint

end SignedMetadata
