import SignedMetadata.Calendar
import SignedMetadata.Shape.Basic
import SignedMetadata.Text.Blank

/-
  When metadata expires.

  The member `expires` holds a date and time.  Its parts are
  read from left to right: a number may follow white space,
  the year may have a sign and then any number of digits, and
  every number is checked for its range when it is read.
-/

namespace SignedMetadata

------------------------------------------------------------
-- Faults
------------------------------------------------------------

/- Why a text is no date and time. -/
inductive DateFault where
| outOfRange
| invalid
| tooShort
| tooLong
deriving DecidableEq, Repr

/- The wording of a fault. -/
def DateFault.message : DateFault → String
| .outOfRange => "input is out of range"
| .invalid => "input contains invalid characters"
| .tooShort => "premature end of input"
| .tooLong => "trailing input"

namespace DateTime

------------------------------------------------------------
-- Parts of a Text
------------------------------------------------------------

/- The greatest number that is read. -/
def greatestNumber : Nat := 0x7fffffffffffffff

/-
  A number from the digits at the front, up to a count of
  digits if there is one, and what follows it.
-/
def readDigits
    (most : Option Nat)
    (cs : List Char) :
    Except DateFault (Nat × List Char) :=
  let front :=
    match most with
    | none => cs
    | some count => cs.take count
  let digits := front.takeWhile Char.isDigit
  let n := Nat.ofDigitChars 10 digits 0
  if cs = [] then .error .tooShort
  else if digits = [] then .error .invalid
  else if greatestNumber < n then .error .outOfRange
  else .ok (n, cs.drop digits.length)

/- What follows the white space at the front. -/
def skipBlank (cs : List Char) : List Char :=
  cs.dropWhile Text.isBlank

/- A number of one or two digits in a range. -/
def readNumber
    (least greatest : Nat)
    (cs : List Char) :
    Except DateFault (Nat × List Char) := do
  let (n, rest) ← readDigits (some 2) (skipBlank cs)
  if least ≤ n ∧ n ≤ greatest then return (n, rest)
  else .error .outOfRange

/- A year of 32 bits. -/
def readYear
    (cs : List Char) : Except DateFault (Int × List Char) := do
  let (year, rest) ←
    match skipBlank cs with
    | '-' :: digits => do
        let (n, rest) ← readDigits none digits
        pure (-(n : Int), rest)
    | '+' :: digits => do
        let (n, rest) ← readDigits none digits
        pure ((n : Int), rest)
    | digits => do
        let (n, rest) ← readDigits (some 4) digits
        pure ((n : Int), rest)
  if -0x80000000 ≤ year ∧ year ≤ 0x7fffffff then
    return (year, rest)
  else
    .error .outOfRange

/- What follows an expected character. -/
def readChar
    (expected : Char) :
    List Char → Except DateFault (List Char)
| [] => .error .tooShort
| c :: cs => if c = expected then .ok cs else .error .invalid

------------------------------------------------------------
-- Whole Texts
------------------------------------------------------------

/- The least year of a date. -/
def leastYear : Int := -262143

/- The greatest year of a date. -/
def greatestYear : Int := 262142

/- The date and time that a text writes. -/
def parse (text : String) : Except DateFault DateTime := do
  let (year, cs) ← readYear text.toList
  let cs ← readChar '-' cs
  let (month, cs) ← readNumber 1 12 cs
  let cs ← readChar '-' cs
  let (day, cs) ← readNumber 1 31 cs
  let cs ← readChar 'T' cs
  let (hour, cs) ← readNumber 0 23 cs
  let cs ← readChar ':' cs
  let (minute, cs) ← readNumber 0 59 cs
  let cs ← readChar ':' cs
  let (second, cs) ← readNumber 0 60 cs
  let cs ← readChar 'Z' cs
  let date : Date := ⟨year, month, day⟩
  if cs ≠ [] then .error .tooLong
  else if date.IsValid ∧ leastYear ≤ year ∧
      year ≤ greatestYear then
    return ⟨date, hour, minute, second⟩
  else
    .error .outOfRange

end DateTime

------------------------------------------------------------
-- Expiry of Metadata
------------------------------------------------------------

namespace Expiry

/- What the member `expires` must be. -/
def expected : String := "an ISO 8601 datetime"

/- When metadata expires. -/
def ofPayload
    (payload : Value) : Except ShapeError DateTime :=
  let path := Path.root.field "expires"
  match payload.get? "expires" with
  | none =>
      .error <|
        .missingField Path.root "role metadata" "expires"
  | some (.string text) =>
      match DateTime.parse text with
      | .ok t => .ok t
      | .error fault =>
          .error <|
            .mismatch path expected
              ("'" ++ text ++ "' (" ++ fault.message ++ ")")
  | some value =>
      .error (.mismatch path expected value.kind.name)

/- The date is not after the instant. -/
def hasPassed (t : DateTime) (now : Instant) : Bool :=
  t.instant.atOrBefore now

/- The metadata has expired at the instant. -/
def isExpired
    (payload : Value)
    (now : Instant) : Except ShapeError Bool := do
  let t ← ofPayload payload
  return hasPassed t now

end Expiry

end SignedMetadata
