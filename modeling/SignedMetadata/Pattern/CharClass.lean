import SignedMetadata.Text.DecimalDigit

/-
  Character classes in brackets.

  A class lists characters, ranges, classes such as `\d`,
  named classes such as `[:alpha:]` and further classes in
  brackets; after `^` it is the class of all the others.
  Between two lists, `&&` keeps what both have, `--` takes
  the second away, and `~~` keeps what only one has; these
  are read from left to right.

  A backslash stands before a mark, which it makes ordinary,
  or before `d`, `n`, `r` or `t`.  Before any other letter or
  digit, and before `<` and `>`, it is refused: there are no
  classes such as `\D`, `\w`, `\s` and `\p`, no boundaries,
  and no characters by number.
-/

namespace SignedMetadata

open Text (CodePointRanges)

namespace CharClass

------------------------------------------------------------
-- Single Characters and Escapes
------------------------------------------------------------

/- What a character or an escape stands for. -/
inductive Primitive where
| character (c : Char)
| decimalDigit

/-
  What a character after a backslash stands for, if it is one
  of those that are known here.
-/
def escape? (c : Char) : Option Primitive :=
  if c = 'd' then some .decimalDigit
  else if c = 'n' then some (.character '\n')
  else if c = 'r' then some (.character '\r')
  else if c = 't' then some (.character '\t')
  else if c.isAlphanum ∨ c = '<' ∨ c = '>' ∨
      0x7F < c.toNat then none
  else some (.character c)

/- The class that a primitive stands for. -/
def Primitive.ranges : Primitive → CodePointRanges
| .character c => CodePointRanges.single c
| .decimalDigit => Text.decimalDigitRanges

/- The class of all characters that do not end a line. -/
def anyInLine : CodePointRanges :=
  CodePointRanges.complement (CodePointRanges.single '\n')

/- The next primitive of a class, and what follows it. -/
def primitive? : List Char → Option (Primitive × List Char)
| [] => none
| '\\' :: c :: cs => (escape? c).map fun p => (p, cs)
| '\\' :: [] => none
| c :: cs => some (.character c, cs)

------------------------------------------------------------
-- Items
------------------------------------------------------------

/-
  A class as it is written: its characters, and how deeply
  lists, operations and brackets are nested in it.
-/
structure Part where
  ranges : CodePointRanges
  nesting : Nat
deriving DecidableEq, Repr

/- The next primitive or range, and what follows it. -/
def item? (cs : List Char) : Option (Part × List Char) :=
  match primitive? cs with
  | none => none
  | some (low, rest) =>
      let alone := some (⟨low.ranges, 0⟩, rest)
      match rest with
      | '-' :: ']' :: _ => alone
      | '-' :: '-' :: _ => alone
      | '-' :: more =>
          match low, primitive? more with
          | .character a, some (.character b, rest) =>
              if a ≤ b then
                some (⟨[(a.toNat, b.toNat)], 0⟩, rest)
              else
                none
          | _, _ => none
      | _ => alone

/- The classes that have names. -/
def named : List (String × CodePointRanges) :=
  [
    ("alnum", [(0x30, 0x39), (0x41, 0x5A), (0x61, 0x7A)]),
    ("alpha", [(0x41, 0x5A), (0x61, 0x7A)]),
    ("ascii", [(0x0, 0x7F)]),
    ("blank", [(0x9, 0x9), (0x20, 0x20)]),
    ("cntrl", [(0x0, 0x1F), (0x7F, 0x7F)]),
    ("digit", [(0x30, 0x39)]),
    ("graph", [(0x21, 0x7E)]),
    ("lower", [(0x61, 0x7A)]),
    ("print", [(0x20, 0x7E)]),
    ("punct",
      [(0x21, 0x2F), (0x3A, 0x40), (0x5B, 0x60),
        (0x7B, 0x7E)]),
    ("space", [(0x9, 0xD), (0x20, 0x20)]),
    ("upper", [(0x41, 0x5A)]),
    ("word",
      [(0x30, 0x39), (0x41, 0x5A), (0x5F, 0x5F),
        (0x61, 0x7A)]),
    ("xdigit", [(0x30, 0x39), (0x41, 0x46), (0x61, 0x66)])
  ]

/- The class of a name, after the bracket and the colon. -/
def named? (cs : List Char) : Option (Part × List Char) :=
  let (negated, cs) :=
    match cs with
    | '^' :: rest => (true, rest)
    | rest => (false, rest)
  match cs.dropWhile (· ≠ ':') with
  | ':' :: ']' :: rest =>
      let name := String.ofList (cs.takeWhile (· ≠ ':'))
      (named.lookup name).map fun ranges =>
        (⟨if negated then CodePointRanges.complement ranges
          else ranges, 0⟩, rest)
  | _ => none

------------------------------------------------------------
-- Open Brackets
------------------------------------------------------------

/- An operation between two lists. -/
inductive Operation where
| meet
| without
| apart

/- What an operation makes of two classes. -/
def Operation.apply :
    Operation → CodePointRanges → CodePointRanges →
      CodePointRanges
| .meet => CodePointRanges.meet
| .without => CodePointRanges.without
| .apart => CodePointRanges.apart

/-
  A class that is being read: an operation that waits for its
  second list, and the items of the list, in reverse.
-/
structure OpenClass where
  negated : Bool
  waiting : Option (Operation × Part)
  items : List Part

namespace OpenClass

/- The class with one more item. -/
def add (cls : OpenClass) (item : Part) : OpenClass :=
  ⟨cls.negated, cls.waiting, item :: cls.items⟩

/- The list of items as one part. -/
def list (cls : OpenClass) : Part :=
  let ranges := cls.items.reverse.foldl
    (fun ranges item =>
      CodePointRanges.union ranges item.ranges)
    []
  let deepest := cls.items.foldl
    (fun deepest item => max deepest item.nesting) 0
  match cls.items with
  | _ :: _ :: _ => ⟨ranges, deepest + 1⟩
  | _ => ⟨ranges, deepest⟩

/- All that was read, with the waiting operation done. -/
def content (cls : OpenClass) : Part :=
  match cls.waiting with
  | none => cls.list
  | some (operation, first) =>
      ⟨operation.apply first.ranges cls.list.ranges,
        max first.nesting cls.list.nesting + 1⟩

/- The class after the sign of an operation. -/
def operate
    (cls : OpenClass)
    (operation : Operation) : OpenClass :=
  ⟨cls.negated, some (operation, cls.content), []⟩

/- The class at its right bracket. -/
def close (cls : OpenClass) : Part :=
  let content := cls.content
  ⟨if cls.negated then
      CodePointRanges.complement content.ranges
    else
      content.ranges,
    content.nesting + 1⟩

/-
  A class after its left bracket, and what follows.  Dashes
  in first place, or else one right bracket, are ordinary
  characters.
-/
def start (cs : List Char) : OpenClass × List Char :=
  let (negated, cs) :=
    match cs with
    | '^' :: rest => (true, rest)
    | rest => (false, rest)
  let dashes := cs.takeWhile (· = '-')
  let (first, rest) :=
    match dashes, cs.dropWhile (· = '-') with
    | [], ']' :: rest => ([']'], rest)
    | dashes, rest => (dashes, rest)
  (⟨negated, none,
    first.map fun c => ⟨CodePointRanges.single c, 0⟩⟩, rest)

end OpenClass

------------------------------------------------------------
-- Reading a Class
------------------------------------------------------------

/-
  The rest of a class inside the open classes around it, and
  what follows it.
-/
def finish? :
    Nat → OpenClass → List OpenClass → List Char →
      Option (Part × List Char)
| 0, _, _, _ => none
| _ + 1, _, _, [] => none
| fuel + 1, cls, outer, ']' :: cs =>
    match outer with
    | [] => some (cls.close, cs)
    | parent :: outer =>
        finish? fuel (parent.add cls.close) outer cs
| fuel + 1, cls, outer, '&' :: '&' :: cs =>
    finish? fuel (cls.operate .meet) outer cs
| fuel + 1, cls, outer, '-' :: '-' :: cs =>
    finish? fuel (cls.operate .without) outer cs
| fuel + 1, cls, outer, '~' :: '~' :: cs =>
    finish? fuel (cls.operate .apart) outer cs
| fuel + 1, cls, outer, '[' :: cs =>
    let name :=
      match cs with
      | ':' :: rest => named? rest
      | _ => none
    match name with
    | some (item, rest) =>
        finish? fuel (cls.add item) outer rest
    | none =>
        let (inner, rest) := OpenClass.start cs
        finish? fuel inner (cls :: outer) rest
| fuel + 1, cls, outer, cs =>
    match item? cs with
    | none => none
    | some (item, rest) =>
        finish? fuel (cls.add item) outer rest

/- A class after its left bracket, and what follows it. -/
def read? (cs : List Char) : Option (Part × List Char) :=
  let (cls, rest) := OpenClass.start cs
  finish? (rest.length + 1) cls [] rest

end CharClass

end SignedMetadata
