import SignedMetadata.Canonical.Stream
import SignedMetadata.Json.Basic
import SignedMetadata.Reading.Literal

/-
  Bringing JSON data into values.

  Elements and members are converted in order, a container
  is checked for its depth before its content, and the first
  fault is reported with its path.
-/

namespace SignedMetadata

namespace Value

------------------------------------------------------------
-- Conversion
------------------------------------------------------------

/- The integer of a literal at a path. -/
def ofLiteralAt
    (path : Path)
    (literal : String) : Except EncodeError Value :=
  match integerOfLiteral literal with
  | .ok i => .ok (.integer i)
  | .error .fractional => .error (.floatingPoint path literal)
  | .error .outOfRange =>
      .error (.integerOutOfRange path literal)

mutual

/- The value of data at a path. -/
def ofJsonAt
    (limits : Limits)
    (path : Path) : Json → Except EncodeError Value
| .null => .ok .null
| .bool b => .ok (.bool b)
| .number literal => ofLiteralAt path literal
| .string text => .ok (.string text)
| .array items => do
    limits.enter path
    let values ← ofJsonItems limits path 0 items
    return .sequence values
| .object members => do
    limits.enter path
    let values ← ofJsonMembers limits path [] members
    return .mapping values

/- The values of elements, the first at a position. -/
def ofJsonItems
    (limits : Limits)
    (path : Path)
    (position : Nat) :
    List Json → Except EncodeError (List Value)
| [] => .ok []
| json :: rest => do
    let value ← ofJsonAt limits (path.index position) json
    let values ← ofJsonItems limits path (position + 1) rest
    return value :: values

/- The values of members, added to those before them. -/
def ofJsonMembers
    (limits : Limits)
    (path : Path)
    (read : Members Value) :
    List (String × Json) → Except EncodeError (Members Value)
| [] => .ok read
| (key, json) :: rest => do
    let value ← ofJsonAt limits (path.field key) json
    ofJsonMembers limits path
      (Members.insert key value read) rest

end

/- The value of data within limits on its depth. -/
def ofJson
    (limits : Limits)
    (json : Json) : Except EncodeError Value :=
  ofJsonAt limits Path.root json

end Value

namespace Canonical

/- The canonical text of JSON data within the limits. -/
def encodeJson
    (limits : Limits)
    (json : Json) : Except EncodeError String := do
  let value ← Value.ofJson limits json
  encode limits value

end Canonical

end SignedMetadata
