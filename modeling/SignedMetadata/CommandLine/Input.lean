import SignedMetadata.Calendar
import SignedMetadata.Envelope.Basic
import SignedMetadata.Reading.Distinct

/-
  From input bytes to values and envelopes.

  The bytes must be UTF-8 text, the text JSON without
  repeated keys, and its data a value within the limits.
-/

namespace SignedMetadata

namespace CommandLine

------------------------------------------------------------
-- Failures
------------------------------------------------------------

/- Why the input of a command is not usable. -/
inductive InputError where
| file (path reason : String)
| standardInput (reason : String)
| text (cause : ReadError)
| unsupported (cause : EncodeError)
| envelope (cause : ShapeError)
deriving DecidableEq, Repr

/- The wording of a failure. -/
def InputError.message : InputError → String
| .file path reason =>
    "Failed to read file " ++ path ++ ": " ++ reason
| .standardInput reason => "Failed to read stdin: " ++ reason
| .text cause => "Invalid JSON: " ++ cause.message
| .unsupported cause => "Unsupported input: " ++ cause.message
| .envelope cause => "Malformed envelope: " ++ cause.message

------------------------------------------------------------
-- Reading Input
------------------------------------------------------------

/-
  What a command can see of its surroundings: what standard
  input holds, what files hold, and the time.  Input that
  cannot be read is given by the reason.
-/
structure Environment where
  standardInput : Except String (List UInt8)
  fileBytes : String → Except String (List UInt8)
  now : Instant

/- The reason that bytes are no text. -/
def notText : String := "stream did not contain valid UTF-8"

/- The text that was read. -/
def decode
    (bytes : Except String (List UInt8)) :
    Except String String := do
  match Text.ofBytes? (← bytes) with
  | some text => return text
  | none => .error notText

/- The text of the input. -/
def readText
    (environment : Environment) :
    Option String → Except InputError String
| some path =>
    (decode (environment.fileBytes path)).mapError (.file path)
| none =>
    (decode environment.standardInput).mapError .standardInput

/- The value that a text writes, within the limits. -/
def valueOfText
    (limits : Limits)
    (text : String) : Except InputError Value := do
  (Json.checkText text).mapError .text
  let json ← (Json.ofText text).mapError .text
  (Value.ofJson limits json).mapError .unsupported

/- The value of the input. -/
def readValue
    (environment : Environment)
    (limits : Limits)
    (input : Option String) : Except InputError Value := do
  let text ← readText environment input
  valueOfText limits text

/- The envelope of the input, or one around its value. -/
def readEnvelope
    (environment : Environment)
    (limits : Limits)
    (input : Option String) :
    Except InputError Envelope := do
  let value ← readValue environment limits input
  (Envelope.wrap value).mapError .envelope

/- The value of the input, or only the payload of it. -/
def readPayload
    (environment : Environment)
    (limits : Limits)
    (input : Option String)
    (signedOnly : Bool) : Except InputError Value :=
  if signedOnly then do
    let envelope ← readEnvelope environment limits input
    return envelope.signed
  else
    readValue environment limits input

end CommandLine

end SignedMetadata
