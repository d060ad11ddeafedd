/-
  Binary floating-point numbers.

  A finite number is a significand times a power of two.  A
  format bounds both, and `FloatFormat.round` gives the number
  of a format that is nearest to a ratio, with ties to an
  even significand.
-/

namespace SignedMetadata

------------------------------------------------------------
-- Formats and Numbers
------------------------------------------------------------

/-
  A floating-point format: the bits of its significands and
  the least and greatest power of two they are multiplied
  with.
-/
structure FloatFormat where
  precision : Nat
  minExponent : Int
  maxExponent : Int
deriving DecidableEq, Repr

namespace FloatFormat

/- Numbers of 64 bits. -/
def binary64 : FloatFormat where
  precision := 53
  minExponent := -1074
  maxExponent := 971

/- Numbers of 32 bits. -/
def binary32 : FloatFormat where
  precision := 24
  minExponent := -149
  maxExponent := 104

end FloatFormat

/- A floating-point number, with a sign also for zero. -/
inductive FloatingPoint where
| nan
| infinite (negative : Bool)
| finite (negative : Bool) (significand : Nat) (exponent : Int)
deriving DecidableEq, Repr

------------------------------------------------------------
-- Rounding
------------------------------------------------------------

namespace FloatFormat

/- The quotient nearest to a ratio, of two the even one. -/
def nearest (num den : Nat) : Nat :=
  let quotient := num / den
  let twice := 2 * (num % den)
  if twice < den then quotient
  else if den < twice then quotient + 1
  else if quotient % 2 = 0 then quotient
  else quotient + 1

/- Power of a base, or one for a negative exponent. -/
def upward (base : Nat) (exponent : Int) : Nat :=
  Nat.pow base exponent.toNat

/- Power of a base for the negated exponent, or one. -/
def downward (base : Nat) (exponent : Int) : Nat :=
  Nat.pow base (-exponent).toNat

/- The power of two at or below a positive ratio. -/
def floorLog (num den : Nat) : Int :=
  let guess := (Nat.log2 num : Int) - Nat.log2 den
  if den * upward 2 guess ≤ num * downward 2 guess then guess
  else guess - 1

/- The number of the format that is nearest to a ratio. -/
def round
    (format : FloatFormat)
    (negative : Bool)
    (num den : Nat) : FloatingPoint :=
  if num = 0 then .finite negative 0 format.minExponent
  else
    let exponent :=
      max format.minExponent
        (floorLog num den - (format.precision - 1))
    let significand :=
      nearest (num * downward 2 exponent)
        (den * upward 2 exponent)
    let (significand, exponent) :=
      if significand < Nat.pow 2 format.precision then
        (significand, exponent)
      else
        (Nat.pow 2 (format.precision - 1), exponent + 1)
    if format.maxExponent < exponent then .infinite negative
    else .finite negative significand exponent

/-
  The number of the format that is nearest to a coefficient
  times a power of ten.  Powers beyond every format are cut
  off without being computed.
-/
def ofDecimal
    (format : FloatFormat)
    (negative : Bool)
    (coefficient : Nat)
    (exponent : Int) : FloatingPoint :=
  let point :=
    exponent + (Nat.toDigits 10 coefficient).length
  if coefficient = 0 then
    .finite negative 0 format.minExponent
  else if format.maxExponent + format.precision < point then
    .infinite negative
  else if point < format.minExponent then
    .finite negative 0 format.minExponent
  else
    format.round negative (coefficient * upward 10 exponent)
      (downward 10 exponent)

end FloatFormat

end SignedMetadata
