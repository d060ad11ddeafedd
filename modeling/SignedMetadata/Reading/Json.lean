import SignedMetadata.Json.Basic
import SignedMetadata.Json.Tree
import SignedMetadata.Reading.Literal
import SignedMetadata.Reading.Rejection

/-
  Reading JSON text as data.

  Members are brought into ascending key order, and of
  repeated keys the last value stays.  An object whose first
  key is `literalKey` stands for the number whose literal is
  its one value.
-/

namespace SignedMetadata

namespace Json

------------------------------------------------------------
-- Trees
------------------------------------------------------------

/-
  How a value counts for a reader that expected something
  else.  Numbers that are no 64-bit integers count as `wide`.
-/
def Tree.found? (wide : Found) : Tree → Option Found
| .null => some .null
| .bool b => some (.bool b)
| .number literal =>
    match machineInteger? literal with
    | some i => some (.integer i)
    | none => some wide
| .string text => some (.string text)
| .array _ _ => some .sequence
| .object _ _ => some .map
| .broken => none

/- The rejection of a value, unless it could not be read. -/
def Tree.reject
    {α : Type}
    (wide : Found)
    (expected : String)
    (tree : Tree) : Except ReadError α :=
  match tree.found? wide with
  | some found =>
      .error (.rejected (.wrongType found expected))
  | none => .error .malformed

/- The number that an object with `literalKey` stands for. -/
def ofLiteralValue (tree : Tree) : Except ReadError Json :=
  match tree with
  | .string text =>
      match literal text with
      | .ok literal => .ok (.number literal)
      | .error .unfinished =>
          .error (.rejected .unfinishedNumber)
      | .error .invalid => .error (.rejected .invalidNumber)
  | _ => tree.reject .number "string containing a number"

/- What was read, unless the text is broken after it. -/
def whenClosed
    {α : Type}
    (closed : Bool)
    (result : α) : Except ReadError α :=
  if closed then .ok result else .error .malformed

mutual

/- The data that a tree writes. -/
def ofTree : Tree → Except ReadError Json
| .null => .ok .null
| .bool b => .ok (.bool b)
| .number literal => .ok (.number literal)
| .string text => .ok (.string text)
| .array items closed => do
    let items ← ofTrees items
    whenClosed closed (.array items)
| .object members closed =>
    match members with
    | [] => whenClosed closed (.object [])
    | (key, tree) :: rest =>
        if key = literalKey then do
          let json ← ofLiteralValue tree
          whenClosed (closed && rest.isEmpty) json
        else do
          let json ← ofTree tree
          let members ← ofMembers [(key, json)] rest
          whenClosed closed (.object members)
| .broken => .error .malformed

/- The data of elements. -/
def ofTrees : List Tree → Except ReadError (List Json)
| [] => .ok []
| tree :: trees => do
    let json ← ofTree tree
    let jsons ← ofTrees trees
    return json :: jsons

/- The data of members, added to those before them. -/
def ofMembers
    (read : Members Json) :
    List (String × Tree) → Except ReadError (Members Json)
| [] => .ok read
| (key, tree) :: rest => do
    let json ← ofTree tree
    ofMembers (Members.insert key json read) rest

end

------------------------------------------------------------
-- Texts
------------------------------------------------------------

/- The data that a text writes. -/
def ofText (text : String) : Except ReadError Json := do
  let document := Document.ofText text
  let json ← ofTree document.root
  whenClosed (!document.trailing) json

end Json

end SignedMetadata
