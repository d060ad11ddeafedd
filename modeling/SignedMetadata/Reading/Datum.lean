import SignedMetadata.Datum
import SignedMetadata.Reading.Value

/-
  Reading typed data as a value.

  Integers of any width, text, options, sequences and maps
  with text keys are taken over.  Floating-point numbers,
  bytes and choices are rejected.  A map whose first key is
  `literalKey` hands over a number literal, and must have no
  other entries.
-/

namespace SignedMetadata

namespace Value

------------------------------------------------------------
-- Rejections
------------------------------------------------------------

/- How a datum counts for a reader of another type. -/
def foundDatum : Datum → Found
| .unit => .unit
| .bool b => .bool b
| .integer i =>
    if i < -0x8000000000000000 then .signedWide i
    else if i ≤ 0xffffffffffffffff then .integer i
    else .unsignedWide i
| .float format number =>
    .floatingPoint (number.plain format)
| .char c => .string (String.singleton c)
| .string text => .string text
| .bytes _ => .bytes
| .absent => .option
| .present _ => .option
| .sequence _ => .sequence
| .map _ => .map
| .variant _ => .choice
| .tagged _ _ => .choice

/- The rejection of a datum where a value must stand. -/
def rejectDatum
    {α : Type}
    (datum : Datum)
    (expected : String) : Except Rejection α :=
  .error (.wrongType (foundDatum datum) expected)

/- How many entries a literal may have, in words. -/
def singleEntry : String := "1 element in map"

------------------------------------------------------------
-- Data
------------------------------------------------------------

/- The text of a key. -/
def keyOfDatum : Datum → Except Rejection String
| .char c => .ok (String.singleton c)
| .string text => .ok text
| datum => rejectDatum datum "a string"

/- The number that a literal entry hands over. -/
def ofLiteralDatum
    (datum : Datum)
    (others : Nat) : Except Rejection Value := do
  match datum with
  | .string literal =>
      let value ← ofLiteral literal
      if others = 0 then return value
      else .error (.wrongLength (1 + others) singleEntry)
  | datum => rejectDatum datum literalExpected

mutual

/- The value of typed data. -/
def readDatum : Datum → Except Rejection Value
| .unit => .ok .null
| .bool b => .ok (.bool b)
| .integer i =>
    if InRange i then .ok (.integer i)
    else .error (.integerOutOfRange (Text.ofInteger i))
| .float format number =>
    .error (.floatingPoint (number.plain format))
| .char c => .ok (.string (String.singleton c))
| .string text => .ok (.string text)
| .absent => .ok .null
| .present datum => readDatum datum
| .sequence items => do
    let values ← readItems items
    return .sequence values
| .map entries =>
    match entries with
    | [] => .ok (.mapping [])
    | (key, datum) :: rest => do
        let text ← keyOfDatum key
        if text = literalKey then
          ofLiteralDatum datum rest.length
        else
          let value ← readDatum datum
          let members ← readEntries [(text, value)] rest
          return .mapping members
| .bytes bs => rejectDatum (.bytes bs) valueExpected
| .variant name => rejectDatum (.variant name) valueExpected
| .tagged name content =>
    rejectDatum (.tagged name content) valueExpected

/- The values of elements. -/
def readItems : List Datum → Except Rejection (List Value)
| [] => .ok []
| datum :: rest => do
    let value ← readDatum datum
    let values ← readItems rest
    return value :: values

/- The values of entries, added to those before them. -/
def readEntries
    (read : Members Value) :
    List (Datum × Datum) →
      Except Rejection (Members Value)
| [] => .ok read
| (key, datum) :: rest => do
    let text ← keyOfDatum key
    let value ← readDatum datum
    if Members.contains read text then
      .error (.duplicateKey text)
    readEntries (Members.insert text value read) rest

end

end Value

end SignedMetadata
