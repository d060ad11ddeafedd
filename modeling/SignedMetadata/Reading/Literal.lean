import SignedMetadata.Text.Decimal
import SignedMetadata.Value

/-
  Integers from number literals.

  A literal with a fraction or an exponent is no integer,
  even when its value is one.  Any other literal is read
  exactly, and must lie in the range of value integers.
-/

namespace SignedMetadata

------------------------------------------------------------
-- Literals
------------------------------------------------------------

/- Why a literal gives no integer. -/
inductive LiteralFault where
| fractional
| outOfRange
deriving DecidableEq, Repr

/- The character belongs to a fraction or an exponent. -/
def marksFraction (c : Char) : Bool :=
  c = '.' || c = 'e' || c = 'E'

/- The integer that a literal writes. -/
def integerOfLiteral
    (literal : String) : Except LiteralFault Int :=
  if literal.toList.any marksFraction then
    .error .fractional
  else
    match Text.integer? literal with
    | none => .error .outOfRange
    | some i =>
        if Value.InRange i then .ok i
        else .error .outOfRange

/- The key under which literals are passed as members. -/
def literalKey : String :=
  "$serde_json::private::Number"

end SignedMetadata
