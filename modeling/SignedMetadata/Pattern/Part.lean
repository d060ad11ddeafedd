import SignedMetadata.Pattern.Expression

/-
  Patterns in the form from which automata are built.

  Groups without a number are gone, characters that follow
  one another are texts, sequences and choices are flat, and
  alternatives give up what they all start with.  A pattern
  has one part, `Automaton.part`.
-/

namespace SignedMetadata

open Text (CodePointRanges)

namespace Automaton

------------------------------------------------------------
-- Parts
------------------------------------------------------------

/- What an automaton is put together from. -/
inductive Part where
| nothing
| atStart
| atEnd
| text (chars : List Char)
| cls (ranges : CodePointRanges)
| numbered (body : Part)
| times
    (body : Part)
    (least : Nat)
    (greatest : Option Nat)
    (reluctant : Bool)
| sequence (parts : List Part)
| choice (parts : List Part)

namespace Part

mutual

/- The part can match the empty text only. -/
def isWidthless : Part → Bool
| .nothing => true
| .atStart => true
| .atEnd => true
| .text _ => false
| .cls _ => false
| .numbered body => isWidthless body
| .times body _ _ _ => isWidthless body
| .sequence parts => allWidthless parts
| .choice parts => allWidthless parts

/- All parts can match the empty text only. -/
def allWidthless : List Part → Bool
| [] => true
| p :: ps => isWidthless p && allWidthless ps

end

mutual

/-
  The least number of characters that the part matches.  An
  empty class, and what needs one, matches no text at all.
-/
def leastWidth : Part → Option Nat
| .nothing => some 0
| .atStart => some 0
| .atEnd => some 0
| .text chars => some chars.length
| .cls ranges => if ranges.isEmpty then none else some 1
| .numbered body => leastWidth body
| .times body least _ _ =>
    (leastWidth body).map fun width => least * width
| .sequence parts => leastWidthTogether parts
| .choice parts => leastWidthAmong parts

/- The least number of characters of parts in sequence. -/
def leastWidthTogether : List Part → Option Nat
| [] => some 0
| p :: ps =>
    (leastWidth p).bind fun width =>
      (leastWidthTogether ps).map fun rest => width + rest

/- The least number of characters of one of the parts. -/
def leastWidthAmong : List Part → Option Nat
| [] => none
| [p] => leastWidth p
| p :: ps =>
    (leastWidth p).bind fun width =>
      (leastWidthAmong ps).map fun rest => min width rest

end

/- The part never matches the empty text. -/
def isSolid (part : Part) : Bool :=
  part.leastWidth.any fun width => 0 < width

mutual

/-
  Two parts are the same.  A numbered group is the same as no
  other, since each has a number of its own.
-/
def same : Part → Part → Bool
| .nothing, .nothing => true
| .atStart, .atStart => true
| .atEnd, .atEnd => true
| .text s, .text t => s = t
| .cls s, .cls t => s = t
| .times p least greatest reluctant,
    .times q least' greatest' reluctant' =>
    least = least' && greatest = greatest' &&
      reluctant = reluctant' && same p q
| .sequence ps, .sequence qs => sameAll ps qs
| .choice ps, .choice qs => sameAll ps qs
| _, _ => false

/- Two lists have the same parts. -/
def sameAll : List Part → List Part → Bool
| [], [] => true
| p :: ps, q :: qs => same p q && sameAll ps qs
| _, _ => false

end

mutual

/- Every match of the part begins where the text starts. -/
def isAtStart : Part → Bool
| .atStart => true
| .numbered body => isAtStart body
| .times body least _ _ => 0 < least && isAtStart body
| .sequence parts => beginsAtStart parts
| .choice parts => areAtStart parts
| _ => false

/- A sequence has an anchor at its start. -/
def beginsAtStart : List Part → Bool
| [] => false
| p :: ps =>
    isAtStart p || (isWidthless p && beginsAtStart ps)

/- All parts begin where the text starts. -/
def areAtStart : List Part → Bool
| [] => true
| p :: ps => isAtStart p && areAtStart ps

end

mutual

/- Every match of the part stops where the text ends. -/
def isAtEnd : Part → Bool
| .atEnd => true
| .numbered body => isAtEnd body
| .times body least _ _ => 0 < least && isAtEnd body
| .sequence parts => stopsAtEnd parts
| .choice parts => areAtEnd parts
| _ => false

/- A sequence has an anchor at its end. -/
def stopsAtEnd : List Part → Bool
| [] => false
| p :: ps =>
    stopsAtEnd ps || (allWidthless ps && isAtEnd p)

/- All parts stop where the text ends. -/
def areAtEnd : List Part → Bool
| [] => true
| p :: ps => isAtEnd p && areAtEnd ps

end

/- The part of a class; a single character is a text. -/
def ofRanges : CodePointRanges → Part
| [(low, high)] =>
    if low = high then .text [Char.ofNat low]
    else .cls [(low, high)]
| ranges => .cls ranges

/-
  A part several times.  What can match the empty text only
  is not repeated.
-/
def repeated
    (body : Part)
    (least : Nat)
    (greatest : Option Nat)
    (reluctant : Bool) : Part :=
  let (least, greatest) :=
    if body.isWidthless then
      (min least 1, some (min 1 (greatest.getD 1)))
    else
      (least, greatest)
  if greatest = some 0 then .nothing
  else if least = 1 ∧ greatest = some 1 then body
  else .times body least greatest reluctant

/- The parts of a sequence, which may be a part itself. -/
def inSequence : Part → List Part
| .nothing => []
| .sequence parts => parts
| part => [part]

/- The parts of a choice, which may be a part itself. -/
def inChoice : Part → List Part
| .choice parts => parts
| part => [part]

/- Put a part before others, and join texts that meet. -/
def attach : Part → List Part → List Part
| .text s, .text t :: rest => .text (s ++ t) :: rest
| part, rest => part :: rest

/- Parts one after another. -/
def joined (parts : List Part) : Part :=
  match (parts.flatMap inSequence).foldr attach [] with
  | [] => .nothing
  | [part] => part
  | parts => .sequence parts

/- The character of a text that has no other. -/
def character? : Part → Option Char
| .text [c] => some c
| _ => none

/- The parts of a sequence. -/
def sequence? : Part → Option (List Part)
| .sequence parts => some parts
| _ => none

/- The characters of a text. -/
def text? : Part → Option (List Char)
| .text chars => some chars
| _ => none

/- The characters of a class. -/
def ranges? : Part → Option CodePointRanges
| .cls ranges => some ranges
| _ => none

/-
  The part that several parts make together, if it is no
  choice: one character or class of all their characters.
-/
def merged? (parts : List Part) : Option Part :=
  match parts, parts.mapM character?, parts.mapM ranges? with
  | [part], _, _ => some part
  | _, some chars, _ =>
      some <| ofRanges <|
        (chars.map CodePointRanges.single).foldl
          CodePointRanges.union []
  | _, _, some classes =>
      some (ofRanges (classes.foldl CodePointRanges.union []))
  | _, _, _ => none

/- One of several parts that do not all start alike. -/
def chosen (parts : List Part) : Part :=
  let parts := parts.flatMap inChoice
  (merged? parts).getD (.choice parts)

/- The parts with which two sequences start. -/
def shared : List Part → List Part → List Part
| p :: ps, q :: qs =>
    if same p q then p :: shared ps qs else []
| _, _ => []

/-
  One of several parts that are not merged.  What sequences
  all start with comes first, and a choice of the rests
  follows it.
-/
def factored (parts : List Part) : Part :=
  match parts.mapM sequence? with
  | some (first :: rest) =>
      let start := rest.foldl shared first
      if start.isEmpty then
        .choice parts
      else
        joined <| start ++
          [chosen <| (first :: rest).map fun items =>
            joined (items.drop start.length)]
  | _ => .choice parts

/- One of several parts. -/
def oneOf (parts : List Part) : Part :=
  let parts := parts.flatMap inChoice
  (merged? parts).getD (factored parts)

end Part

mutual

/- The part that matches a pattern. -/
def part : Expression → Part
| .empty => .nothing
| .one cls => .ofRanges cls.ranges
| .atStart => .atStart
| .atEnd => .atEnd
| .group numbered body =>
    if numbered then .numbered (part body) else part body
| .times body least greatest reluctant =>
    .repeated (part body) least greatest reluctant
| .sequence items => .joined (partsOf items)
| .choice alternatives => .oneOf (partsOf alternatives)

/- The parts that match several patterns. -/
def partsOf : List Expression → List Part
| [] => []
| e :: es => part e :: partsOf es

end

end Automaton

end SignedMetadata
