/-
  Hexadecimal text.

  A hex digit is an ASCII digit or a letter from a to f in
  either case.  Bytes are written with two lowercase digits.
-/

namespace SignedMetadata.Text

------------------------------------------------------------
-- Digits
------------------------------------------------------------

/- The value of a hex digit. -/
def hexDigit? (c : Char) : Option Nat :=
  if '0' ≤ c ∧ c ≤ '9' then some (c.toNat - '0'.toNat)
  else if 'a' ≤ c ∧ c ≤ 'f' then
    some (c.toNat - 'a'.toNat + 10)
  else if 'A' ≤ c ∧ c ≤ 'F' then
    some (c.toNat - 'A'.toNat + 10)
  else none

/- The character is a hex digit. -/
def isHexDigit (c : Char) : Bool :=
  (hexDigit? c).isSome

/- The text is one or more hex digits. -/
def isHex (text : String) : Bool :=
  !text.isEmpty && text.toList.all isHexDigit

------------------------------------------------------------
-- Bytes
------------------------------------------------------------

/- Two lowercase hex digits for every byte. -/
def hexOfBytes (bytes : List UInt8) : String :=
  String.ofList <|
    bytes.flatMap fun b =>
      [Nat.digitChar (b.toNat / 16),
        Nat.digitChar (b.toNat % 16)]

end SignedMetadata.Text
