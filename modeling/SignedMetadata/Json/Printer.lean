import SignedMetadata.Json.Basic

/-
  Writing JSON data as text.

  `Json.compact` writes no white space.  `Json.pretty` puts
  every element and member on a line of its own, indented by
  two spaces for each enclosing container; containers without
  content stay closed up.
-/

namespace SignedMetadata

namespace Json

------------------------------------------------------------
-- Strings
------------------------------------------------------------

/- The characters that stand for one character. -/
def printedChar (c : Char) : List Char :=
  if c = '"' then ['\\', '"']
  else if c = '\\' then ['\\', '\\']
  else if c = '\x08' then ['\\', 'b']
  else if c = '\x0c' then ['\\', 'f']
  else if c = '\n' then ['\\', 'n']
  else if c = '\r' then ['\\', 'r']
  else if c = '\t' then ['\\', 't']
  else if c.toNat < 0x20 then
    ['\\', 'u', '0', '0', Nat.digitChar (c.toNat / 16),
      Nat.digitChar (c.toNat % 16)]
  else [c]

/- A string between quotes. -/
def printedString (text : String) : String :=
  String.ofList
    ('"' :: text.toList.flatMap printedChar ++ ['"'])

------------------------------------------------------------
-- Compact Text
------------------------------------------------------------

mutual

/- The text of data without white space. -/
def compact : Json → String
| .null => "null"
| .bool true => "true"
| .bool false => "false"
| .number literal => literal
| .string text => printedString text
| .array items => "[" ++ compactItems "" items ++ "]"
| .object members =>
    "\x7b" ++ compactMembers "" members ++ "\x7d"

/-
  The text of elements.  `lead` is written before the first,
  and a comma before every other element.
-/
def compactItems (lead : String) : List Json → String
| [] => ""
| v :: vs => lead ++ compact v ++ compactItems "," vs

/- The text of members, likewise. -/
def compactMembers
    (lead : String) : List (String × Json) → String
| [] => ""
| (k, v) :: ms =>
    lead ++ printedString k ++ ":" ++ compact v ++
      compactMembers "," ms

end

------------------------------------------------------------
-- Indented Text
------------------------------------------------------------

/- A new line, indented for a number of containers. -/
def newLine (level : Nat) : String :=
  String.ofList ('\n' :: List.replicate (2 * level) ' ')

mutual

/- The text of data inside a number of containers. -/
def prettyAt (level : Nat) : Json → String
| .null => "null"
| .bool true => "true"
| .bool false => "false"
| .number literal => literal
| .string text => printedString text
| .array [] => "[]"
| .array (v :: vs) =>
    "[" ++ newLine (level + 1) ++ prettyAt (level + 1) v ++
      prettyItems (level + 1) vs ++ newLine level ++ "]"
| .object [] => "\x7b\x7d"
| .object ((k, v) :: ms) =>
    "\x7b" ++ newLine (level + 1) ++ printedString k ++
      ": " ++ prettyAt (level + 1) v ++
      prettyMembers (level + 1) ms ++ newLine level ++
      "\x7d"

/- The text of elements after the first. -/
def prettyItems (level : Nat) : List Json → String
| [] => ""
| v :: vs =>
    "," ++ newLine level ++ prettyAt level v ++
      prettyItems level vs

/- The text of members after the first. -/
def prettyMembers
    (level : Nat) : List (String × Json) → String
| [] => ""
| (k, v) :: ms =>
    "," ++ newLine level ++ printedString k ++ ": " ++
      prettyAt level v ++ prettyMembers level ms

end

/- The indented text of data. -/
def pretty (json : Json) : String :=
  prettyAt 0 json

end Json

end SignedMetadata
