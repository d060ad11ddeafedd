import SignedMetadata.Shape.Check
import SignedMetadata.Text.Hex

/-
  Detached signature records.

  A record names a key, a method and a signature; the key and
  the signature are hex digits.  `Signature.ofValue` reads a
  record from a value and says which field is wrong, and
  `Signature.toValue` writes it back.
-/

namespace SignedMetadata

------------------------------------------------------------
-- Hex Texts
------------------------------------------------------------

/- A text of one or more hex digits. -/
structure HexText where
  text : String
  isHex : Text.isHex text = true
deriving DecidableEq, Repr

/- A text that a field does not allow. -/
structure NotAllowed where
  field : String
  text : String
deriving DecidableEq, Repr

/- The wording for a text that is not allowed. -/
def NotAllowed.message (fault : NotAllowed) : String :=
  fault.field ++ " ('" ++ fault.text ++ "') is not allowed"

namespace HexText

/- The text as hex digits of a field. -/
def parse
    (field text : String) : Except NotAllowed HexText :=
  if h : Text.isHex text = true then .ok ⟨text, h⟩
  else .error ⟨field, text⟩

/- The identifier of a key. -/
def parseKeyId : String → Except NotAllowed HexText :=
  parse "KeyId"

/- The bytes of a signature. -/
def parseSignature : String → Except NotAllowed HexText :=
  parse "HexSignature"

end HexText

------------------------------------------------------------
-- Records
------------------------------------------------------------

/- A signature by a key. -/
structure Signature where
  keyId : HexText
  method : String
  sig : HexText
deriving DecidableEq, Repr

namespace Signature

/- A record from texts; the key is checked first. -/
def parse
    (keyId method sig : String) :
    Except NotAllowed Signature := do
  let keyId ← HexText.parseKeyId keyId
  let sig ← HexText.parseSignature sig
  return ⟨keyId, method, sig⟩

/- A record as a value. -/
def toValue (signature : Signature) : Value :=
  .mapping [
    ("keyid", .string signature.keyId.text),
    ("method", .string signature.method),
    ("sig", .string signature.sig.text)]

------------------------------------------------------------
-- Reading Values
------------------------------------------------------------

/- The names of the fields of a record. -/
def fields : List String := ["keyid", "method", "sig"]

/- The first key that is no field's name. -/
def extraKey?
    (known : List String)
    (members : Members Value) : Option String :=
  (Members.keys members).find? fun key => key ∉ known

/- The text of a field. -/
def fieldText
    (path : Path)
    (members : Members Value)
    (field : String) : Except ShapeError String :=
  match members.find? field with
  | some (.string s) => .ok s
  | some value =>
      .error <|
        .mismatch (path.field field) "a string"
          value.kind.name
  | none =>
      .error (.missingField path "signature" field)

/- The hex digits of a field. -/
def fieldHex
    (path : Path)
    (field text : String) : Except ShapeError HexText :=
  match HexText.parse field text with
  | .ok hex => .ok hex
  | .error _ =>
      .error <|
        .mismatch (path.field field) "a hex string"
          (Shape.singleQuoted text)

/-
  The record of a value at a path.  All fields are found
  before the hex digits of one are checked.
-/
def ofValue
    (path : Path)
    (value : Value) : Except ShapeError Signature := do
  let members ←
    Shape.expectMapping path "a signature" value
  match extraKey? fields members with
  | some key => .error (.unexpectedField path key)
  | none =>
      let keyId ← fieldText path members "keyid"
      let method ← fieldText path members "method"
      let sig ← fieldText path members "sig"
      let keyId ← fieldHex path "keyid" keyId
      let sig ← fieldHex path "sig" sig
      return ⟨keyId, method, sig⟩

/- The records of elements, the first at a position. -/
def ofValues
    (path : Path)
    (position : Nat) :
    List Value → Except ShapeError (List Signature)
| [] => .ok []
| v :: vs => do
    let signature ← ofValue (path.index position) v
    let signatures ← ofValues path (position + 1) vs
    return signature :: signatures

end Signature

end SignedMetadata
