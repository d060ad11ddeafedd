import SignedMetadata.Text.Unprintable
import SignedMetadata.Text.Combining

/-
  Quoted display of text in diagnostics.

  `quoted` puts text between double quotes so that every
  character can be told apart on one line: quotes and
  backslashes are escaped, the common controls have short
  escapes, and characters that are unprintable or extend
  their predecessor are written by code point.
-/

namespace SignedMetadata.Text

------------------------------------------------------------
-- Escapes
------------------------------------------------------------

/- The character is written by its code point. -/
def isHidden (c : Char) : Bool :=
  if c.toNat < 0x7F then
    c.toNat < 0x20
  else
    isUnprintable c || isCombining c

/- A code point in lowercase hexadecimal between braces. -/
def codePointEscape (c : Char) : List Char :=
  ['\\', 'u', '\x7b'] ++ Nat.toDigits 16 c.toNat ++ ['\x7d']

/- How one character is written between the quotes. -/
def quotedChar (c : Char) : List Char :=
  if c = '\x00' then ['\\', '0']
  else if c = '\t' then ['\\', 't']
  else if c = '\r' then ['\\', 'r']
  else if c = '\n' then ['\\', 'n']
  else if c = '"' then ['\\', '"']
  else if c = '\\' then ['\\', '\\']
  else if isHidden c then codePointEscape c
  else [c]

------------------------------------------------------------
-- Quoted Text
------------------------------------------------------------

/- Text between double quotes, with escapes. -/
def quoted (text : String) : String :=
  String.ofList
    ('"' :: text.toList.flatMap quotedChar ++ ['"'])

end SignedMetadata.Text
