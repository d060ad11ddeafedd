import SignedMetadata.Reading.Json

/-
  Reading JSON text directly as a value.

  The first fault in the order of the text is reported,
  whether it lies in the grammar or in the data.  Repeated
  keys are rejected, and so is an object whose first key is
  `literalKey`: no object is taken for a number.
-/

namespace SignedMetadata

namespace Value

open Json (Tree Document)

------------------------------------------------------------
-- Trees
------------------------------------------------------------

/- What is expected under `literalKey`. -/
def literalExpected : String :=
  "a JSON number literal"

/- What is expected where a value must stand. -/
def valueExpected : String :=
  "a string, integer, boolean, null, sequence or " ++
    "string-keyed mapping"

/- The integer of a literal, or the rejection it causes. -/
def ofLiteral (literal : String) : Except Rejection Value :=
  match integerOfLiteral literal with
  | .ok i => .ok (.integer i)
  | .error .fractional => .error (.floatingPoint literal)
  | .error .outOfRange => .error (.integerOutOfRange literal)

mutual

/- The value that a tree writes. -/
def ofTree : Tree → Except ReadError Value
| .null => .ok .null
| .bool b => .ok (.bool b)
| .number literal => (ofLiteral literal).mapError .rejected
| .string text => .ok (.string text)
| .array items closed => do
    let items ← ofTrees items
    Json.whenClosed closed (.sequence items)
| .object members closed =>
    match members with
    | [] => Json.whenClosed closed (.mapping [])
    | (key, tree) :: rest =>
        if key = literalKey then
          tree.reject .map literalExpected
        else do
          let value ← ofTree tree
          let members ← ofMemberTrees [(key, value)] rest
          Json.whenClosed closed (.mapping members)
| .broken => .error .malformed

/- The values of elements. -/
def ofTrees : List Tree → Except ReadError (List Value)
| [] => .ok []
| tree :: trees => do
    let value ← ofTree tree
    let values ← ofTrees trees
    return value :: values

/- The values of members, added to those before them. -/
def ofMemberTrees
    (read : Members Value) :
    List (String × Tree) → Except ReadError (Members Value)
| [] => .ok read
| (key, tree) :: rest => do
    let value ← ofTree tree
    if Members.contains read key then
      .error (.rejected (.duplicateKey key))
    ofMemberTrees (Members.insert key value read) rest

end

------------------------------------------------------------
-- Texts
------------------------------------------------------------

/- The value that a text writes. -/
def ofText (text : String) : Except ReadError Value := do
  let document := Document.ofText text
  let value ← ofTree document.root
  Json.whenClosed (!document.trailing) value

end Value

end SignedMetadata
