/-
  Character classes given by ranges of code points.

  A table lists inclusive ranges in ascending order, with a
  gap between one and the next.  A character is in the class
  when its code point lies in one of the ranges.
-/

namespace SignedMetadata.Text

------------------------------------------------------------
-- Tables of Code Points
------------------------------------------------------------

/- Inclusive ranges of code points, in ascending order. -/
abbrev CodePointRanges := List (Nat × Nat)

namespace CodePointRanges

/- The character's code point lies in a range of the table. -/
def holds
    (table : CodePointRanges)
    (c : Char) : Bool :=
  table.any fun range =>
    range.1 ≤ c.toNat && c.toNat ≤ range.2

/- The class of one character. -/
def single (c : Char) : CodePointRanges :=
  [(c.toNat, c.toNat)]

------------------------------------------------------------
-- Operations on Classes
------------------------------------------------------------

/- The greatest code point. -/
def greatest : Nat := 0x10FFFF

/-
  The table with one more range, which takes in the ranges
  that it meets or touches.
-/
def insert
    (low high : Nat) : CodePointRanges → CodePointRanges
| [] => [(low, high)]
| (l, h) :: rest =>
    if high + 1 < l then (low, high) :: (l, h) :: rest
    else if h + 1 < low then (l, h) :: insert low high rest
    else insert (min low l) (max high h) rest

/- The characters of either class. -/
def union (s t : CodePointRanges) : CodePointRanges :=
  t.foldl (fun table range => insert range.1 range.2 table) s

/- The code points from `next` on that are in no range. -/
def gapsFrom (next : Nat) : CodePointRanges → CodePointRanges
| [] => if next ≤ greatest then [(next, greatest)] else []
| (low, high) :: rest =>
    if next < low then
      (next, low - 1) :: gapsFrom (high + 1) rest
    else
      gapsFrom (high + 1) rest

/- The characters that are not in the class. -/
def complement (s : CodePointRanges) : CodePointRanges :=
  gapsFrom 0 s

/- The characters of both classes. -/
def meet (s t : CodePointRanges) : CodePointRanges :=
  complement (union (complement s) (complement t))

/- The characters of the first class only. -/
def without (s t : CodePointRanges) : CodePointRanges :=
  meet s (complement t)

/- The characters of exactly one of two classes. -/
def apart (s t : CodePointRanges) : CodePointRanges :=
  without (union s t) (meet s t)

end CodePointRanges

end SignedMetadata.Text
