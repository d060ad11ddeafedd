import SignedMetadata.Text.ByteRanges

/-
  The states of an automaton and the memory that they take.

  States are not built, only counted: a `Tally` holds their
  number, from which the number of the next state is known,
  and their memory.  Classes that are not ASCII share states
  through a table with a fixed number of slots.
-/

namespace SignedMetadata

open Text (CodePointRanges)

namespace Automaton

------------------------------------------------------------
-- Costs
------------------------------------------------------------

/- The memory of a state, in bytes. -/
def stateCost : Nat := 32

/- The memory of a state's edge for a range of bytes. -/
def edgeCost : Nat := 8

/- The memory of a state's edge that reads nothing. -/
def branchCost : Nat := 4

/- The greatest memory of an automaton, ten mebibytes. -/
def maxMemory : Nat := 10 * 1024 * 1024

------------------------------------------------------------
-- Tallies
------------------------------------------------------------

/- How many states there are, and their memory. -/
structure Tally where
  states : Nat
  memory : Nat
deriving DecidableEq, Repr

namespace Tally

/- No states. -/
def empty : Tally := ⟨0, 0⟩

/- The tally with more states that have no lists of edges. -/
def add (count : Nat) (tally : Tally) : Tally :=
  ⟨tally.states + count, tally.memory + stateCost * count⟩

/- The tally with more edges that read nothing. -/
def branch (count : Nat) (tally : Tally) : Tally :=
  ⟨tally.states, tally.memory + branchCost * count⟩

/- The tally with more edges for ranges of bytes. -/
def link (count : Nat) (tally : Tally) : Tally :=
  ⟨tally.states, tally.memory + edgeCost * count⟩

/- The tally with a state that leads to two others. -/
def fork (tally : Tally) : Tally := (tally.add 1).branch 2

/- The memory is not more than an automaton may take. -/
def fits (tally : Tally) : Bool := tally.memory ≤ maxMemory

/-
  The tally after something is added several times.  Once the
  memory is too much, the rest makes no difference.
-/
def times (add : Tally → Tally) : Nat → Tally → Tally
| 0, tally => tally
| count + 1, tally =>
    if tally.fits then times add count (add tally) else tally

end Tally

------------------------------------------------------------
-- Shared States
------------------------------------------------------------

/-
  States by what they do, in a table with a fixed number of
  slots.  A new entry takes the slot of an older one.
-/
structure Memo where
  slots : Nat
  entries : List (Nat × List Nat × Nat)

namespace Memo

/- A hash of numbers, by exclusive or and products. -/
def hash (key : List Nat) : UInt64 :=
  key.foldl
    (fun word n => (word ^^^ n.toUInt64) * 0x100000001B3)
    0xCBF29CE484222325

/- The slot of a key. -/
def slot (memo : Memo) (key : List Nat) : Nat :=
  (hash key).toNat % memo.slots

/- The state of a key, unless its slot holds another. -/
def find? (memo : Memo) (key : List Nat) : Option Nat :=
  match memo.entries.lookup (memo.slot key) with
  | some (other, state) =>
      if other = key then some state else none
  | none => none

/- The table with one more entry. -/
def insert
    (memo : Memo) (key : List Nat) (state : Nat) : Memo :=
  ⟨memo.slots, (memo.slot key, key, state) :: memo.entries⟩

end Memo

/- A tally and the states that can be shared. -/
structure Sharing where
  memo : Memo
  tally : Tally

namespace Sharing

/- No shared states yet, in a table of some slots. -/
def start (slots : Nat) (tally : Tally) : Sharing :=
  ⟨⟨slots, []⟩, tally⟩

/- The state of a key, which is added if it is not found. -/
def state
    (key : List Nat)
    (add : Tally → Tally)
    (sharing : Sharing) : Nat × Sharing :=
  match sharing.memo.find? key with
  | some state => (state, sharing)
  | none =>
      let next := sharing.tally.states
      (next, ⟨sharing.memo.insert key next,
        add sharing.tally⟩)

end Sharing

------------------------------------------------------------
-- Classes, Forwards
------------------------------------------------------------

/-
  Blocks of byte ranges in groups that start with the same
  range.
-/
def groups
    (blocks : List (List (Nat × Nat))) :
    List (List (List (Nat × Nat))) :=
  blocks.splitBy fun s t => s.head? == t.head?

/- The first range of the first block. -/
def firstRange
    (blocks : List (List (Nat × Nat))) : Nat × Nat :=
  (blocks.head?.bind List.head?).getD (0, 0)

/-
  The state that reads one of some blocks and goes on to a
  target, by the greatest length of a block.  Equal ends of
  blocks share their states.
-/
def readState
    (target : Nat) :
    Nat → List (List (Nat × Nat)) → Sharing →
      Nat × Sharing
| 0, _, sharing => (target, sharing)
| length + 1, blocks, sharing =>
    if blocks.all List.isEmpty then (target, sharing)
    else
      let (edges, sharing) :=
        (groups blocks).foldl
          (fun (edges, sharing) group =>
            let (low, high) := firstRange group
            let (next, sharing) :=
              readState target length (group.map List.tail)
                sharing
            (edges ++ [low, high, next], sharing))
          ([], sharing)
      sharing.state edges fun tally =>
        (tally.add 1).link (groups blocks).length

/- The tally with a class whose bytes are read forwards. -/
def forwardClass
    (ranges : CodePointRanges) (tally : Tally) : Tally :=
  (readState tally.states 4 (Text.byteBlocks ranges)
    (Sharing.start 10000 (tally.add 1))).2.tally

------------------------------------------------------------
-- Classes, Backwards
------------------------------------------------------------

/-
  The state that reads a block backwards and goes on to a
  target.  Equal starts of blocks share their states.
-/
def readBlock :
    Nat → List (Nat × Nat) → Sharing → Sharing
| _, [], sharing => sharing
| target, (low, high) :: block, sharing =>
    let (state, sharing) :=
      sharing.state [target, low, high] (Tally.add 1)
    readBlock state block sharing

/- The tally with a class whose bytes are read backwards. -/
def backwardClass
    (ranges : CodePointRanges) (tally : Tally) : Tally :=
  let blocks := Text.byteBlocks ranges
  let sharing := blocks.foldl
    (fun sharing block =>
      readBlock (tally.states + 1) block sharing)
    (Sharing.start 1000 (tally.add 2))
  sharing.tally.branch blocks.length

/-
  The tally with a class.  A class of ASCII characters needs
  one state to read a byte and one to go on from.
-/
def addClass
    (backward : Bool)
    (ranges : CodePointRanges)
    (tally : Tally) : Tally :=
  if ranges.all fun range => range.2 < 0x80 then
    (tally.add 2).link ranges.length
  else if backward then backwardClass ranges tally
  else forwardClass ranges tally

/-
  The tally with a class whose ranges share no states.  A
  range has at most 21 blocks of at most four bytes, so this
  is never less than the tally with the class.
-/
def addClassApart
    (ranges : CodePointRanges) (tally : Tally) : Tally :=
  let bytes := 21 * 4 * ranges.length
  (tally.add (2 + bytes)).link bytes

end Automaton

end SignedMetadata
