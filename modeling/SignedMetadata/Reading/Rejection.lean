import SignedMetadata.Text.Decimal
import SignedMetadata.Text.Quoted

/-
  Why well-formed data is not what a reader accepts.
-/

namespace SignedMetadata

------------------------------------------------------------
-- What Was Found
------------------------------------------------------------

/-
  Data that a reader met where it expected something else.
  Numbers that are no 64-bit integers are told apart by how
  they were held: as a literal, as a wide integer with or
  without sign, or in floating point.
-/
inductive Found where
| null
| unit
| option
| bool (b : Bool)
| integer (i : Int)
| unsignedWide (i : Int)
| signedWide (i : Int)
| floatingPoint (text : String)
| number
| string (text : String)
| bytes
| sequence
| map
| choice
deriving DecidableEq, Repr

/- How a rejection names what was found. -/
def Found.describe : Found → String
| .null => "null"
| .unit => "unit value"
| .option => "Option value"
| .bool true => "boolean `true`"
| .bool false => "boolean `false`"
| .integer i => "integer `" ++ Text.ofInteger i ++ "`"
| .unsignedWide i =>
    "integer `" ++ Text.ofInteger i ++ "` as u128"
| .signedWide i =>
    "integer `" ++ Text.ofInteger i ++ "` as i128"
| .floatingPoint text => "floating point `" ++ text ++ "`"
| .number => "number"
| .string text => "string " ++ Text.quoted text
| .bytes => "byte array"
| .sequence => "sequence"
| .map => "map"
| .choice => "enum"

------------------------------------------------------------
-- Rejections
------------------------------------------------------------

/- Why a reader did not accept data. -/
inductive Rejection where
| wrongType (found : Found) (expected : String)
| wrongLength (count : Nat) (expected : String)
| missingField (name : String)
| duplicateField (name : String)
| unknownField (name : String) (known : List String)
| unknownVariant (name : String) (known : List String)
| duplicateKey (key : String)
| floatingPoint (text : String)
| integerOutOfRange (text : String)
| invalidNumber
| unfinishedNumber
| notAllowed (field value : String)
deriving DecidableEq, Repr

namespace Rejection

/- A name between backquotes. -/
def ticked (name : String) : String :=
  "`" ++ name ++ "`"

/- The names that would have been accepted. -/
def oneOf : List String → String
| [a] => ticked a
| [a, b] => ticked a ++ " or " ++ ticked b
| names =>
    "one of " ++ ", ".intercalate (names.map ticked)

/- The wording of a rejection. -/
def message : Rejection → String
| .wrongType found expected =>
    "invalid type: " ++ found.describe ++ ", expected " ++
      expected
| .wrongLength count expected =>
    "invalid length " ++ Text.ofNatural count ++
      ", expected " ++ expected
| .missingField name => "missing field " ++ ticked name
| .duplicateField name => "duplicate field " ++ ticked name
| .unknownField name known =>
    "unknown field " ++ ticked name ++ ", expected " ++
      oneOf known
| .unknownVariant name known =>
    "unknown variant " ++ ticked name ++ ", expected " ++
      oneOf known
| .duplicateKey key =>
    "duplicate mapping key " ++ Text.quoted key
| .floatingPoint text =>
    "floating-point number " ++ text ++
      " cannot be canonicalized"
| .integerOutOfRange text =>
    "integer " ++ text ++ " is out of range"
| .invalidNumber => "invalid number"
| .unfinishedNumber => "EOF while parsing a value"
| .notAllowed field value =>
    field ++ " ('" ++ value ++ "') is not allowed"

end Rejection

------------------------------------------------------------
-- Failed Readings
------------------------------------------------------------

/-
  Why a text was not read: its grammar is broken, or what it
  says up to there was rejected.
-/
inductive ReadError where
| malformed
| rejected (cause : Rejection)
deriving DecidableEq, Repr

/- The wording of a failed reading. -/
def ReadError.message : ReadError → String
| .malformed => "malformed JSON text"
| .rejected cause => cause.message

end SignedMetadata
