import SignedMetadata.FloatingPoint.Text
import SignedMetadata.Reading.Value

/-
  Reading JSON data as a value.

  Members are taken in the order of the data.  Numbers that
  are integers of up to 128 bits are handed over as such, a
  literal that is the usual text of its 64-bit floating-point
  number as that number, and any other as its literal.
-/

namespace SignedMetadata

namespace Json

------------------------------------------------------------
-- Numbers
------------------------------------------------------------

/- How a number of JSON data is handed over. -/
inductive NumberForm where
| integer (i : Int)
| float (x : FloatingPoint)
| literal (literal : String)

/-
  The finite 64-bit floating-point number whose shortest
  literal, or whose text by position, a literal is.
-/
def usualFloat? (literal : String) : Option FloatingPoint :=
  match FloatingPoint.parse? .binary64 literal with
  | none => none
  | some x =>
      match x.literal? .binary64 with
      | none => none
      | some shortest =>
          if shortest = literal ∨
              x.plain .binary64 = literal then
            some x
          else
            none

/- The form in which a literal is handed over. -/
def numberForm (literal : String) : NumberForm :=
  match (Text.integer? literal).filter fun i =>
      Value.minInteger ≤ i ∧
        i ≤ 0xffffffffffffffffffffffffffffffff with
  | some i => .integer i
  | none =>
      match usualFloat? literal with
      | some x => .float x
      | none => .literal literal

/- How JSON data counts for a reader of any kind of data. -/
def found : Json → Found
| .null => .null
| .bool b => .bool b
| .number literal =>
    match numberForm literal with
    | .integer i =>
        if i < -0x8000000000000000 then .signedWide i
        else if i ≤ 0xffffffffffffffff then .integer i
        else .unsignedWide i
    | .float x =>
        .floatingPoint ((x.literal? .binary64).getD literal)
    | .literal _ => .map
| .string text => .string text
| .array _ => .sequence
| .object _ => .map

end Json

namespace Value

------------------------------------------------------------
-- Data
------------------------------------------------------------

/- The value of a number of JSON data. -/
def ofNumber (literal : String) : Except Rejection Value :=
  match Json.numberForm literal with
  | .integer i =>
      if InRange i then .ok (.integer i)
      else .error (.integerOutOfRange (Text.ofInteger i))
  | .float x =>
      .error (.floatingPoint (x.plain .binary64))
  | .literal literal => ofLiteral literal

/- How many members a literal may have, in words. -/
def fewerMembers : String := "fewer elements in map"

/-
  The number that a member with `literalKey` hands over, in
  an object with a number of other members.
-/
def ofLiteralMember
    (json : Json)
    (others : Nat) : Except Rejection Value := do
  match json with
  | .string literal =>
      let value ← ofLiteral literal
      if others = 0 then return value
      else .error (.wrongLength (1 + others) fewerMembers)
  | json => .error (.wrongType json.found literalExpected)

mutual

/- The value of JSON data. -/
def readJson : Json → Except Rejection Value
| .null => .ok .null
| .bool b => .ok (.bool b)
| .number literal => ofNumber literal
| .string text => .ok (.string text)
| .array items => do
    let values ← readJsonItems items
    return .sequence values
| .object members =>
    match members with
    | [] => .ok (.mapping [])
    | (key, json) :: rest =>
        if key = literalKey then
          ofLiteralMember json rest.length
        else do
          let value ← readJson json
          let members ← readJsonMembers [(key, value)] rest
          return .mapping members

/- The values of elements. -/
def readJsonItems :
    List Json → Except Rejection (List Value)
| [] => .ok []
| json :: rest => do
    let value ← readJson json
    let values ← readJsonItems rest
    return value :: values

/- The values of members, added to those before them. -/
def readJsonMembers
    (read : Members Value) :
    List (String × Json) →
      Except Rejection (Members Value)
| [] => .ok read
| (key, json) :: rest => do
    let value ← readJson json
    if Members.contains read key then
      .error (.duplicateKey key)
    readJsonMembers (Members.insert key value read) rest

end

end Value

end SignedMetadata
