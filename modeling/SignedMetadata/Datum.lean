import SignedMetadata.Conversion
import SignedMetadata.FloatingPoint.Text

/-
  Typed data that can be brought into values.

  A datum is what a program may hand over: numbers of every
  kind, text, bytes, options, sequences, maps with keys of
  any type, and tagged choices.  It is written as JSON data
  first, where floating-point numbers that are not finite
  become null and every key must have a text of its own.
-/

namespace SignedMetadata

------------------------------------------------------------
-- Data
------------------------------------------------------------

/- Typed data. -/
inductive Datum where
| unit
| bool (b : Bool)
| integer (i : Int)
| float (format : FloatFormat) (number : FloatingPoint)
| char (c : Char)
| string (text : String)
| bytes (bytes : List UInt8)
| absent
| present (datum : Datum)
| sequence (items : List Datum)
| map (entries : List (Datum × Datum))
| variant (name : String)
| tagged (name : String) (content : Datum)
deriving Inhabited

namespace Datum

/- A record, as a map from the names of its fields. -/
def record (fields : List (String × Datum)) : Datum :=
  .map (fields.map fun field => (.string field.1, field.2))

------------------------------------------------------------
-- Keys
------------------------------------------------------------

/- The reason that a key has no text. -/
def keyFault : String := "key must be a string"

/- The reason that a floating-point key has no text. -/
def infiniteKeyFault : String :=
  "float key must be finite (got NaN or +/-inf)"

/- The text of a key. -/
def keyText : Datum → Except EncodeError String
| .bool true => .ok "true"
| .bool false => .ok "false"
| .integer i => .ok (Text.ofInteger i)
| .float format number =>
    match number.literal? format with
    | some literal => .ok literal
    | none => .error (.unwritable infiniteKeyFault)
| .char c => .ok (String.singleton c)
| .string text => .ok text
| .variant name => .ok name
| _ => .error (.unwritable keyFault)

------------------------------------------------------------
-- JSON Data
------------------------------------------------------------

mutual

/- The JSON data of a datum. -/
def toJson : Datum → Except EncodeError Json
| .unit => .ok .null
| .bool b => .ok (.bool b)
| .integer i => .ok (.number (Text.ofInteger i))
| .float format number =>
    match number.literal? format with
    | some literal => .ok (.number literal)
    | none => .ok .null
| .char c => .ok (.string (String.singleton c))
| .string text => .ok (.string text)
| .bytes bs =>
    .ok <|
      .array <|
        bs.map fun b => .number (Text.ofNatural b.toNat)
| .absent => .ok .null
| .present datum => toJson datum
| .sequence items => do
    let items ← toJsonItems items
    return .array items
| .map entries => do
    let members ← toJsonEntries [] entries
    return .object members
| .variant name => .ok (.string name)
| .tagged name content => do
    let content ← toJson content
    return .object [(name, content)]

/- The JSON data of elements. -/
def toJsonItems : List Datum → Except EncodeError (List Json)
| [] => .ok []
| datum :: rest => do
    let json ← toJson datum
    let jsons ← toJsonItems rest
    return json :: jsons

/- The JSON data of entries, added to those before them. -/
def toJsonEntries
    (read : Members Json) :
    List (Datum × Datum) →
      Except EncodeError (Members Json)
| [] => .ok read
| (key, datum) :: rest => do
    let text ← keyText key
    let json ← toJson datum
    toJsonEntries (Members.insert text json read) rest

end

end Datum

------------------------------------------------------------
-- Values and Canonical Text
------------------------------------------------------------

namespace Value

/- The value of typed data, under the standard limits. -/
def ofDatum (datum : Datum) : Except EncodeError Value := do
  let json ← datum.toJson
  ofJson .standard json

mutual

/- A value as typed data. -/
def toDatum : Value → Datum
| .null => .unit
| .bool b => .bool b
| .integer i => .integer i
| .string s => .string s
| .sequence items => .sequence (toDatumItems items)
| .mapping members => .map (toDatumEntries members)

/- Elements as typed data. -/
def toDatumItems : List Value → List Datum
| [] => []
| v :: vs => toDatum v :: toDatumItems vs

/- Members as entries with text keys. -/
def toDatumEntries :
    List (String × Value) → List (Datum × Datum)
| [] => []
| (k, v) :: ms => (.string k, toDatum v) :: toDatumEntries ms

end

mutual

/- A value as JSON data. -/
def toJson : Value → Json
| .null => .null
| .bool b => .bool b
| .integer i => .number (Text.ofInteger i)
| .string s => .string s
| .sequence items => .array (toJsonItems items)
| .mapping members => .object (toJsonMembers members)

/- Elements as JSON data. -/
def toJsonItems : List Value → List Json
| [] => []
| v :: vs => toJson v :: toJsonItems vs

/- Members as JSON data. -/
def toJsonMembers :
    List (String × Value) → List (String × Json)
| [] => []
| (k, v) :: ms => (k, toJson v) :: toJsonMembers ms

end

end Value

namespace Canonical

/- The canonical text of typed data within the limits. -/
def encodeDatum
    (limits : Limits)
    (datum : Datum) : Except EncodeError String := do
  let json ← datum.toJson
  encodeJson limits json

end Canonical

end SignedMetadata
