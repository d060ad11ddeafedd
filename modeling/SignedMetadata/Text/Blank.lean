import SignedMetadata.Text.Ranges

/-
  White space of every script.

  These are the twenty-five code points with the Unicode
  property White_Space.
-/

namespace SignedMetadata.Text

------------------------------------------------------------
-- White Space
------------------------------------------------------------

/-
  Code points with the property White_Space.
-/
def blankRanges : CodePointRanges :=
  [
    (0x9, 0xD), (0x20, 0x20), (0x85, 0x85), (0xA0, 0xA0), (0x1680, 0x1680),
    (0x2000, 0x200A), (0x2028, 0x2029), (0x202F, 0x202F), (0x205F, 0x205F),
    (0x3000, 0x3000)
  ]

/- The character is white space. -/
def isBlank (c : Char) : Bool :=
  blankRanges.holds c

end SignedMetadata.Text
