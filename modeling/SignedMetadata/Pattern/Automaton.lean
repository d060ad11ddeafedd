import SignedMetadata.Pattern.Part
import SignedMetadata.Pattern.Tally

/-
  How much memory the automata of a pattern would take.

  A pattern can be matched by an automaton that reads the
  bytes of a text forwards, and by one that reads them
  backwards.  Both must fit into the memory that is allowed.
-/

namespace SignedMetadata

open Text (CodePointRanges)

namespace Automaton

------------------------------------------------------------
-- Texts
------------------------------------------------------------

/- The bytes of a text in the order in which they are read. -/
def readBytes
    (backward : Bool) (chars : List Char) : List UInt8 :=
  let bytes := chars.flatMap String.utf8EncodeChar
  if backward then bytes.reverse else bytes

/- Strings of bytes, cut where some are empty. -/
def batches
    (texts : List (List UInt8)) : List (List (List UInt8)) :=
  let cut := texts.splitBy fun s t => s.isEmpty == t.isEmpty
  cut.filter fun batch => !batch.all List.isEmpty

/- The bytes with which strings start. -/
def firstBytes (texts : List (List UInt8)) : List UInt8 :=
  (texts.filterMap List.head?).eraseDups

/- What follows a byte in the strings that start with it. -/
def restsAfter
    (byte : UInt8)
    (texts : List (List UInt8)) : List (List UInt8) :=
  (texts.filter fun s => s.head? = some byte).map List.tail

/- The tally with a state that leads on from some bytes. -/
def addBytes (bytes : List UInt8) (tally : Tally) : Tally :=
  if bytes.length = 1 then tally.add 1
  else (tally.add 1).link bytes.length

/-
  The tally with a tree of byte strings, by their greatest
  length.  Strings share the states for the bytes with which
  they start, but not across a string that ends there.
-/
def addTree : Nat → List (List UInt8) → Tally → Tally
| 0, _, tally => tally
| length + 1, texts, tally =>
    if texts.all List.isEmpty then tally
    else
      let branches :=
        (batches texts).length + texts.countP List.isEmpty
      let tally := (batches texts).foldl
        (fun tally batch =>
          let bytes := firstBytes batch
          addBytes bytes <|
            bytes.foldl
              (fun tally byte =>
                addTree length (restsAfter byte batch) tally)
              tally)
        tally
      (tally.add 1).branch branches

/- The tally with a choice of texts. -/
def addTexts
    (backward : Bool)
    (texts : List (List Char))
    (tally : Tally) : Tally :=
  let texts := texts.map (readBytes backward)
  let greatest := (texts.map List.length).foldl max 0
  addTree (greatest + 1) texts (tally.add 1)

------------------------------------------------------------
-- Parts
------------------------------------------------------------

/-
  The tally with a part several times, from what adds its
  body and whether the body never matches the empty text.
-/
def addTimes
    (body : Tally → Tally)
    (solid : Bool)
    (least : Nat) : Option Nat → Tally → Tally
| none, tally =>
    if 0 < least then (Tally.times body least tally).fork
    else if solid then body tally.fork
    else (body tally).fork.fork.add 1
| some greatest, tally =>
    if least = 0 ∧ greatest = 1 then (body tally.fork).add 1
    else if least = greatest then
      Tally.times body least tally
    else
      let required :=
        if least = 0 then tally.add 1
        else Tally.times body least tally
      Tally.times (fun tally => body tally.fork)
        (greatest - least) (required.add 1)

mutual

/- The tally with a part, from what adds a class. -/
def addPart
    (cls : CodePointRanges → Tally → Tally)
    (backward : Bool) : Part → Tally → Tally
| .nothing, tally => tally.add 1
| .atStart, tally => tally.add 1
| .atEnd, tally => tally.add 1
| .text chars, tally =>
    tally.add (chars.map Char.utf8Size).sum
| .cls ranges, tally => cls ranges tally
| .numbered body, tally =>
    if backward then addPart cls backward body tally
    else (addPart cls backward body (tally.add 1)).add 1
| .times body least greatest _, tally =>
    addTimes (addPart cls backward body) body.isSolid least
      greatest tally
| .sequence parts, tally =>
    addSequence cls backward parts tally
| .choice parts, tally =>
    match parts.mapM Part.text? with
    | some texts => addTexts backward texts tally
    | none =>
        (addChoice cls backward 1 parts tally).branch
          parts.length

/- The tally with parts in the order in which they are read. -/
def addSequence
    (cls : CodePointRanges → Tally → Tally)
    (backward : Bool) : List Part → Tally → Tally
| [], tally => tally
| p :: ps, tally =>
    if backward then
      addPart cls backward p
        (addSequence cls backward ps tally)
    else
      addSequence cls backward ps
        (addPart cls backward p tally)

/-
  The tally with alternatives.  The states at both ends of
  the choice come after a number of them.
-/
def addChoice
    (cls : CodePointRanges → Tally → Tally)
    (backward : Bool) : Nat → List Part → Tally → Tally
| _, [], tally => tally
| 0, p :: ps, tally =>
    addChoice cls backward ps.length ps
      ((addPart cls backward p tally).add 2)
| before + 1, p :: ps, tally =>
    addChoice cls backward before ps
      (addPart cls backward p tally)

end

------------------------------------------------------------
-- Patterns
------------------------------------------------------------

/-
  The tally with what skips the bytes before a match.  For a
  pattern that is anchored it is one state.
-/
def addSkip (anchored : Bool) (tally : Tally) : Tally :=
  if anchored then tally.add 1
  else (tally.fork.add 2).link 1

/-
  The tally of the automaton of a pattern, from what adds a
  class.  Read forwards, the pattern as a whole counts as a
  numbered group.
-/
def tally
    (cls : CodePointRanges → Tally → Tally)
    (backward : Bool)
    (whole : Part) : Tally :=
  let anchored :=
    if backward then whole.isAtEnd else whole.isAtStart
  (addPart cls backward (.numbered whole)
    (addSkip anchored .empty)).add 1

/-
  The automaton of a pattern is small enough.  States are
  shared only if there would be too many without.
-/
def fitsRead (backward : Bool) (whole : Part) : Bool :=
  (tally addClassApart backward whole).fits ||
    (tally (addClass backward) backward whole).fits

/- Both automata of a pattern are small enough. -/
def fits (e : Expression) : Bool :=
  fitsRead false (part e) && fitsRead true (part e)

end Automaton

end SignedMetadata
