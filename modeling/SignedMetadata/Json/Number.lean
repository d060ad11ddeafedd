import SignedMetadata.Text.Decimal

/-
  Number literals of JSON text.

  A literal is kept as it is written, except that its
  exponent is written with a lowercase letter and a sign.
  `NumberPhase` is how far a literal has been read, one
  character at a time; `literal` reads a whole text.
-/

namespace SignedMetadata

namespace Json

------------------------------------------------------------
-- Reading a Literal
------------------------------------------------------------

/- The part of a number literal that was read last. -/
inductive NumberPhase where
| minus
| zero
| whole
| point
| fraction
| mark
| sign
| exponent
deriving DecidableEq, Repr

namespace NumberPhase

/- The letter that introduces an exponent. -/
def isMark (c : Char) : Bool :=
  c = 'e' || c = 'E'

/- The literal may end after this part. -/
def complete : NumberPhase → Bool
| .zero => true
| .whole => true
| .fraction => true
| .exponent => true
| _ => false

/- The first part of a literal, by its first character. -/
def first? (c : Char) : Option NumberPhase :=
  if c = '-' then some .minus
  else if c = '0' then some .zero
  else if c.isDigit then some .whole
  else none

/-
  The part that a character continues a literal with, and
  the characters it adds to the literal.
-/
def next? :
    NumberPhase → Char → Option (NumberPhase × List Char)
| .minus, c =>
    if c = '0' then some (.zero, [c])
    else if c.isDigit then some (.whole, [c])
    else none
| .zero, c =>
    if c = '.' then some (.point, [c])
    else if isMark c then some (.mark, ['e'])
    else none
| .whole, c =>
    if c.isDigit then some (.whole, [c])
    else if c = '.' then some (.point, [c])
    else if isMark c then some (.mark, ['e'])
    else none
| .point, c =>
    if c.isDigit then some (.fraction, [c]) else none
| .fraction, c =>
    if c.isDigit then some (.fraction, [c])
    else if isMark c then some (.mark, ['e'])
    else none
| .mark, c =>
    if c = '+' ∨ c = '-' then some (.sign, [c])
    else if c.isDigit then some (.exponent, ['+', c])
    else none
| .sign, c =>
    if c.isDigit then some (.exponent, [c]) else none
| .exponent, c =>
    if c.isDigit then some (.exponent, [c]) else none

/-
  The literal may end before a character.  A digit after a
  leading zero neither continues a literal nor ends it.
-/
def endsBefore (phase : NumberPhase) (c : Char) : Bool :=
  phase.complete && !(phase = .zero && c.isDigit)

end NumberPhase

------------------------------------------------------------
-- Whole Literals
------------------------------------------------------------

/- Why a text is not a literal. -/
inductive NumberFault where
| unfinished
| invalid
deriving DecidableEq, Repr

/-
  The characters of the rest of a literal, when the whole
  rest belongs to it.
-/
def literalRest :
    NumberPhase → List Char → Except NumberFault (List Char)
| phase, [] =>
    if phase.complete then .ok [] else .error .unfinished
| phase, c :: cs =>
    match phase.next? c with
    | none => .error .invalid
    | some (next, added) =>
        (literalRest next cs).map fun rest => added ++ rest

/- The literal that a text is, with nothing around it. -/
def literal (text : String) : Except NumberFault String :=
  match text.toList with
  | [] => .error .unfinished
  | c :: cs =>
      match NumberPhase.first? c with
      | none => .error .invalid
      | some phase =>
          (literalRest phase cs).map fun rest =>
            String.ofList (c :: rest)

/-
  The integer of a literal that fits a 64-bit word: signed
  when the literal has a minus sign, unsigned otherwise.
  Zero with a minus sign is no integer of a word.
-/
def machineInteger? (literal : String) : Option Int :=
  (Text.integer? literal).filter fun i =>
    match literal.toList with
    | '-' :: _ => -0x8000000000000000 ≤ i && i < 0
    | _ => i ≤ 0xffffffffffffffff

end Json

end SignedMetadata
