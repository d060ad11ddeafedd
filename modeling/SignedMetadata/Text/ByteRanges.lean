import SignedMetadata.Text.Ranges

/-
  The UTF-8 forms of a range of code points.

  The code points of a range are cut into blocks so that the
  bytes of a block are all choices of one byte from each of
  up to four byte ranges.  The blocks of a class are listed
  in ascending order.
-/

namespace SignedMetadata.Text

------------------------------------------------------------
-- Blocks of Numbers
------------------------------------------------------------

/-
  Ranges of digits whose choices are the numbers from `low`
  to `high` in base 64, with a number of digits after the
  first.  Only the first digit may be 64 or more.
-/
def digitBlocks :
    Nat → Nat → Nat → List (List (Nat × Nat))
| 0, low, high => [[(low, high)]]
| digits + 1, low, high =>
    let size := 64 ^ (digits + 1)
    let first := low / size
    let last := high / size
    let blocks (digit low high : Nat) :=
      (digitBlocks digits low high).map fun block =>
        (digit, digit) :: block
    if first = last then
      blocks first (low % size) (high % size)
    else
      let startsWhole := low % size = 0
      let endsWhole := high % size = size - 1
      let before :=
        if startsWhole then []
        else blocks first (low % size) (size - 1)
      let after :=
        if endsWhole then [] else blocks last 0 (high % size)
      let low := if startsWhole then first else first + 1
      let high := if endsWhole then last else last - 1
      let whole :=
        if low ≤ high then
          [(low, high) :: List.replicate (digits + 1) (0, 63)]
        else
          []
      before ++ whole ++ after

------------------------------------------------------------
-- Blocks of Bytes
------------------------------------------------------------

/-
  The code points of each length in bytes: the least and the
  greatest, the number of bytes after the first, and what is
  added to the first digit.  Surrogates are left out.
-/
def byteLengths : List (Nat × Nat × Nat × Nat) :=
  [(0x0, 0x7F, 0, 0x0), (0x80, 0x7FF, 1, 0xC0),
    (0x800, 0xD7FF, 2, 0xE0), (0xE000, 0xFFFF, 2, 0xE0),
    (0x10000, 0x10FFFF, 3, 0xF0)]

/- The byte ranges of a block of digits. -/
def byteBlock
    (mark : Nat) : List (Nat × Nat) → List (Nat × Nat)
| [] => []
| (low, high) :: digits =>
    (low + mark, high + mark) ::
      digits.map fun digit => (digit.1 + 0x80, digit.2 + 0x80)

/- The blocks of the bytes of a class. -/
def byteBlocks
    (ranges : CodePointRanges) : List (List (Nat × Nat)) :=
  ranges.flatMap fun (low, high) =>
    byteLengths.flatMap fun (least, greatest, more, mark) =>
      let low := max low least
      let high := min high greatest
      if low ≤ high then
        (digitBlocks more low high).map (byteBlock mark)
      else
        []

end SignedMetadata.Text
