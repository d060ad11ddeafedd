import SignedMetadata.Canonical.Basic
import SignedMetadata.Canonical.Error

/-
  The length of the canonical text, checked against limits.

  `Canonical.length` adds up the bytes of the canonical text
  without writing it, in the order in which they would be
  written.  A container that lies too deep, and a total that
  passes the size limit, are reported where they are met.
-/

namespace SignedMetadata

namespace Canonical

------------------------------------------------------------
-- Scalars
------------------------------------------------------------

/- How many decimal digits a number has. -/
def digitCount (n : Nat) : Nat :=
  if n < 10 then 1 else 1 + digitCount (n / 10)
termination_by n
decreasing_by omega

/- The length of an integer's numeral. -/
def integerLength (i : Int) : Nat :=
  (if i < 0 then 1 else 0) + digitCount i.natAbs

/- The length of a string's canonical text in bytes. -/
def stringLength (s : String) : Nat :=
  2 + s.utf8ByteSize + s.toList.countP isEscaped

------------------------------------------------------------
-- Values
------------------------------------------------------------

/- Add bytes to a total, up to the size limit. -/
def grow
    (limits : Limits)
    (total count : Nat) : Except EncodeError Nat :=
  if total + count ≤ limits.maxBytes then
    .ok (total + count)
  else
    .error (.tooLarge limits.maxBytes)

mutual

/- The total after the value at the path. -/
def measure
    (limits : Limits)
    (path : Path)
    (total : Nat) : Value → Except EncodeError Nat
| .null => grow limits total 4
| .bool true => grow limits total 4
| .bool false => grow limits total 5
| .integer i => grow limits total (integerLength i)
| .string s => grow limits total (stringLength s)
| .sequence items => do
    limits.enter path
    let total ← grow limits total (2 + (items.length - 1))
    measureItems limits path 0 total items
| .mapping members => do
    limits.enter path
    let total ← grow limits total (2 + (members.length - 1))
    measureMembers limits path total members

/- The total after elements, the first at a position. -/
def measureItems
    (limits : Limits)
    (path : Path)
    (position total : Nat) :
    List Value → Except EncodeError Nat
| [] => .ok total
| v :: vs => do
    let total ← measure limits (path.index position) total v
    measureItems limits path (position + 1) total vs

/- The total after members. -/
def measureMembers
    (limits : Limits)
    (path : Path)
    (total : Nat) :
    List (String × Value) → Except EncodeError Nat
| [] => .ok total
| (k, v) :: ms => do
    let total ← grow limits total (stringLength k + 1)
    let total ← measure limits (path.field k) total v
    measureMembers limits path total ms

end

/- The length of a value's canonical text in bytes. -/
def length
    (limits : Limits)
    (value : Value) : Except EncodeError Nat :=
  measure limits Path.root 0 value

------------------------------------------------------------
-- Encoding
------------------------------------------------------------

/- The canonical text of a value within the limits. -/
def encode
    (limits : Limits)
    (value : Value) : Except EncodeError String := do
  let _ ← length limits value
  return ofValue value

end Canonical

end SignedMetadata
