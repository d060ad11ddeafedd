import SignedMetadata.Reading.Json

/-
  Rejecting texts that repeat a key.

  The check walks through a text in order and stops at the
  first member whose key the same object has already bound,
  once the value of the member has been read.
-/

namespace SignedMetadata

namespace Json

------------------------------------------------------------
-- Repeated Keys
------------------------------------------------------------

mutual

/- No object of the tree repeats a key. -/
def checkKeys : Tree → Except ReadError Unit
| .null => .ok ()
| .bool _ => .ok ()
| .number _ => .ok ()
| .string _ => .ok ()
| .array items closed => do
    checkItemKeys items
    whenClosed closed ()
| .object members closed => do
    checkMemberKeys [] members
    whenClosed closed ()
| .broken => .error .malformed

/- No object in the elements repeats a key. -/
def checkItemKeys : List Tree → Except ReadError Unit
| [] => .ok ()
| tree :: trees => do
    checkKeys tree
    checkItemKeys trees

/- No member has a key that was seen before. -/
def checkMemberKeys
    (seen : List String) :
    List (String × Tree) → Except ReadError Unit
| [] => .ok ()
| (key, tree) :: rest => do
    checkKeys tree
    if key ∈ seen then
      .error (.rejected (.duplicateKey key))
    checkMemberKeys (key :: seen) rest

end

/- No object of the text repeats a key. -/
def checkText (text : String) : Except ReadError Unit := do
  let document := Document.ofText text
  checkKeys document.root
  whenClosed (!document.trailing) ()

end Json

end SignedMetadata
