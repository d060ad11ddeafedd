import SignedMetadata.FloatingPoint.Basic

/-
  The fewest decimal digits that read back.

  The reals that round to a finite number form an interval,
  with its ends if the significand is even.  Of the grids of
  multiples of a power of ten, the coarsest that meets the
  interval gives the digits: the grid point nearest to the
  number.
-/

namespace SignedMetadata

namespace FloatFormat

------------------------------------------------------------
-- Decimals
------------------------------------------------------------

/- A coefficient times a power of ten. -/
structure Decimal where
  coefficient : Nat
  exponent : Int
deriving DecidableEq, Repr

/- Of two equally near decimals, the even or the greater. -/
inductive Tie where
| even
| up
deriving DecidableEq, Repr

------------------------------------------------------------
-- Grids
------------------------------------------------------------

/-
  A number as a count of quarters of the distance to its
  neighbours, between the ends of its rounding interval.
-/
structure Interval where
  low : Nat
  middle : Nat
  high : Nat
  closed : Bool

/- The rounding interval of a positive number. -/
def interval
    (format : FloatFormat)
    (significand : Nat)
    (exponent : Int) : Interval :=
  let narrow :=
    significand = Nat.pow 2 (format.precision - 1) ∧
      format.minExponent < exponent
  { low := 4 * significand - (if narrow then 1 else 2)
    middle := 4 * significand
    high := 4 * significand + 2
    closed := significand % 2 = 0 }

/- The scaled point lies in the scaled interval. -/
def Interval.holds
    (interval : Interval)
    (scale point : Nat) : Bool :=
  if interval.closed then
    interval.low * scale ≤ point &&
      point ≤ interval.high * scale
  else
    interval.low * scale < point &&
      point < interval.high * scale

/-
  The point of a grid nearest to the number, if the grid
  meets the interval.  Points are multiples of `step`, the
  interval is multiplied with `scale`.
-/
def nearestPoint?
    (tie : Tie)
    (interval : Interval)
    (scale step : Nat) : Option Nat :=
  let middle := interval.middle * scale
  let below := middle / step
  let above := below + 1
  match interval.holds scale (below * step),
      interval.holds scale (above * step) with
  | false, false => none
  | true, false => some below
  | false, true => some above
  | true, true =>
      let down := middle - below * step
      let up := above * step - middle
      if down < up then some below
      else if up < down then some above
      else
        match tie with
        | .up => some above
        | .even =>
            if below % 2 = 0 then some below else some above

/-
  The nearest point of the coarsest grid that meets the
  interval, from a power of ten downward.
-/
def search
    (tie : Tie)
    (interval : Interval)
    (exponent : Int)
    (power : Int) : Nat → Decimal
| 0 => ⟨0, 0⟩
| steps + 1 =>
    let quarter := exponent - 2
    let scale := upward 2 quarter * downward 10 power
    let step := upward 10 power * downward 2 quarter
    match nearestPoint? tie interval scale step with
    | some coefficient => ⟨coefficient, power⟩
    | none => search tie interval exponent (power - 1) steps

/-
  The shortest decimal of a positive number.  The first grid
  is coarser than the number, and the last one is finer than
  the least distance of numbers of the format.
-/
def shortest
    (format : FloatFormat)
    (tie : Tie)
    (significand : Nat)
    (exponent : Int) : Decimal :=
  let whole :=
    significand * upward 2 exponent / downward 2 exponent
  let power : Int := (Nat.toDigits 10 whole).length
  search tie (format.interval significand exponent) exponent
    power (power - format.minExponent + 1).toNat

end FloatFormat

end SignedMetadata
