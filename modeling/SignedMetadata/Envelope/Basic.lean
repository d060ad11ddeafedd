import SignedMetadata.Datum
import SignedMetadata.Digest.Basic
import SignedMetadata.Json.Printer
import SignedMetadata.Role
import SignedMetadata.Signature.Basic

/-
  Envelopes: a payload with its detached signatures.

  Signatures are made over the canonical text of the payload,
  never over the envelope.  `Envelope.wrap` takes a mapping
  with a member `signed` for an envelope already, and puts
  every other value into a new one.
-/

namespace SignedMetadata

------------------------------------------------------------
-- Envelopes
------------------------------------------------------------

/- A payload and its signatures, oldest first. -/
structure Envelope where
  signed : Value
  signatures : List Signature
deriving DecidableEq, Repr

namespace Envelope

/- A payload without signatures. -/
def new (payload : Value) : Envelope where
  signed := payload
  signatures := []

/- The envelope with one more signature at the end. -/
def append
    (envelope : Envelope)
    (signature : Signature) : Envelope where
  signed := envelope.signed
  signatures := envelope.signatures ++ [signature]

/- The keys of the signatures, in order. -/
def keyIds (envelope : Envelope) : List HexText :=
  envelope.signatures.map Signature.keyId

/- The text that signatures are made over. -/
def signedText
    (limits : Limits)
    (envelope : Envelope) : Except EncodeError String :=
  Canonical.encode limits envelope.signed

------------------------------------------------------------
-- Envelopes as Data
------------------------------------------------------------

/- An envelope as a value. -/
def toValue (envelope : Envelope) : Value :=
  .mapping [
    ("signatures",
      .sequence (envelope.signatures.map Signature.toValue)),
    ("signed", envelope.signed)]

/- An envelope as JSON data, with the payload in front. -/
def toJson (envelope : Envelope) : Json :=
  .object [
    ("signed", envelope.signed.toJson),
    ("signatures",
      .array
        (envelope.signatures.map fun signature =>
          signature.toValue.toJson))]

------------------------------------------------------------
-- Reading Values
------------------------------------------------------------

/- The names of the fields of an envelope. -/
def fields : List String := ["signed", "signatures"]

/- How an envelope is named. -/
def object : String := "signable envelope"

/- What a field of an envelope is bound to. -/
def fieldValue
    (members : Members Value)
    (field : String) : Except ShapeError Value :=
  match members.find? field with
  | some value => .ok value
  | none => .error (.missingField Path.root object field)

/- The envelope of the members of a mapping. -/
def ofMembers
    (members : Members Value) :
    Except ShapeError Envelope := do
  match Signature.extraKey? fields members with
  | some key => .error (.unexpectedField Path.root key)
  | none =>
      let signed ← fieldValue members "signed"
      let signatures ← fieldValue members "signatures"
      let path := Path.root.field "signatures"
      let items ←
        Shape.expectSequence path "a sequence" signatures
      let signatures ← Signature.ofValues path 0 items
      return ⟨signed, signatures⟩

/- The envelope of a value. -/
def ofValue (value : Value) : Except ShapeError Envelope := do
  let members ←
    Shape.expectMapping Path.root "a signable envelope" value
  ofMembers members

/- The value is taken for an envelope already. -/
def isWrapped (value : Value) : Bool :=
  (value.get? "signed").isSome

/- The envelope of a value, or a new one around it. -/
def wrap (value : Value) : Except ShapeError Envelope :=
  if isWrapped value then ofValue value
  else .ok (new value)

------------------------------------------------------------
-- Checking Payloads
------------------------------------------------------------

/-
  Check the payload against a role, or the one it names.
  Errors are located in the envelope.
-/
def checkRole
    (expected : Option Role)
    (envelope : Envelope) : Except ShapeError Role :=
  (Role.checkExpected expected envelope.signed).mapError
    fun error => error.under [.field "signed"]

end Envelope

end SignedMetadata
