import SignedMetadata.Envelope.Basic
import SignedMetadata.Signature.Reading

/-
  Reading envelopes from JSON text.

  An envelope is an object with exactly its fields, or an
  array with the contents of the fields in order.
-/

namespace SignedMetadata

namespace Envelope

open Json (Tree Document)

------------------------------------------------------------
-- Fields
------------------------------------------------------------

/- What is expected where an envelope must stand. -/
def expected : String := "struct Signable"

/- The signatures that a tree writes. -/
def readSignatures
    (tree : Tree) : Except ReadError (List Signature) :=
  match tree with
  | .array items closed => do
      let signatures ← Signature.ofTrees items
      Json.whenClosed closed signatures
  | _ => tree.reject .number "a sequence"

/- The fields of an envelope that have been read. -/
structure Draft where
  signed : Option Value
  signatures : Option (List Signature)

/- A draft with the fields of members. -/
def Draft.read
    (draft : Draft) :
    List (String × Tree) → Except ReadError Draft
| [] => .ok draft
| (key, tree) :: rest =>
    if key = "signed" then do
      let signed ←
        readOnce key draft.signed (Value.ofTree tree)
      Draft.read ⟨signed, draft.signatures⟩ rest
    else if key = "signatures" then do
      let signatures ←
        readOnce key draft.signatures (readSignatures tree)
      Draft.read ⟨draft.signed, signatures⟩ rest
    else
      .error (.rejected (.unknownField key fields))

/- The envelope of a draft with all fields. -/
def Draft.finish
    (draft : Draft) : Except ReadError Envelope := do
  let signed ← required "signed" draft.signed
  let signatures ← required "signatures" draft.signatures
  return ⟨signed, signatures⟩

------------------------------------------------------------
-- Texts
------------------------------------------------------------

/- The envelope that a tree writes. -/
def ofTree (tree : Tree) : Except ReadError Envelope :=
  match tree with
  | .object members closed => do
      let draft ← Draft.read ⟨none, none⟩ members
      let draft ← Json.whenClosed closed draft
      draft.finish
  | .array items closed => do
      let expected := expected ++ " with 2 elements"
      let signed ←
        readElement expected closed 0 Value.ofTree items
      let signatures ←
        readElement expected closed 1 readSignatures items
      Json.whenClosed (closed && items.length ≤ 2)
        ⟨signed, signatures⟩
  | _ => tree.reject .number expected

/- The envelope that a text writes. -/
def ofText (text : String) : Except ReadError Envelope := do
  let document := Document.ofText text
  let envelope ← ofTree document.root
  Json.whenClosed (!document.trailing) envelope

end Envelope

end SignedMetadata
