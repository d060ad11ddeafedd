import SignedMetadata.Text.Decimal
import SignedMetadata.Value

/-
  The canonical text of a value.

  There is no white space, mappings are written in member
  order, and inside strings only the quote and the backslash
  are escaped; every other character is written as it is.
-/

namespace SignedMetadata

namespace Canonical

------------------------------------------------------------
-- Strings
------------------------------------------------------------

/- A quote or a backslash, which a backslash must precede. -/
def isEscaped (c : Char) : Bool :=
  c = '"' || c = '\\'

/- The characters that stand for one character. -/
def escapeChar (c : Char) : List Char :=
  if isEscaped c then ['\\', c] else [c]

/- The canonical text of a string. -/
def ofString (s : String) : String :=
  String.ofList
    ('"' :: s.toList.flatMap escapeChar ++ ['"'])

------------------------------------------------------------
-- Values
------------------------------------------------------------

mutual

/- The canonical text of a value. -/
def ofValue : Value → String
| .null => "null"
| .bool true => "true"
| .bool false => "false"
| .integer i => Text.ofInteger i
| .string s => ofString s
| .sequence items => "[" ++ ofItems "" items ++ "]"
| .mapping members =>
    "\x7b" ++ ofMembers "" members ++ "\x7d"

/-
  The canonical text of elements.  `lead` is written before
  the first, and a comma before every other element.
-/
def ofItems (lead : String) : List Value → String
| [] => ""
| v :: vs => lead ++ ofValue v ++ ofItems "," vs

/- The canonical text of members, likewise. -/
def ofMembers
    (lead : String) : List (String × Value) → String
| [] => ""
| (k, v) :: ms =>
    lead ++ ofString k ++ ":" ++ ofValue v ++
      ofMembers "," ms

end

end Canonical

end SignedMetadata
