import SignedMetadata.Reading.Value
import SignedMetadata.Signature.Basic

/-
  Reading signature records from JSON text.

  A record is an object with exactly its fields, or an array
  with the contents of the fields in order.  Faults of the
  text and of its content are reported in the order in which
  they are met.
-/

namespace SignedMetadata

open Json (Tree Document)

------------------------------------------------------------
-- Texts
------------------------------------------------------------

/- The text that a tree writes. -/
def Json.Tree.readString
    (tree : Tree) : Except ReadError String :=
  match tree with
  | .string text => .ok text
  | _ => tree.reject .number "a string"

/- The hex digits that a tree writes. -/
def HexText.ofTree
    (parse : String → Except NotAllowed HexText)
    (tree : Tree) : Except ReadError HexText := do
  let text ← tree.readString
  match parse text with
  | .ok hex => .ok hex
  | .error fault =>
      .error (.rejected (.notAllowed fault.field fault.text))

------------------------------------------------------------
-- Fields
------------------------------------------------------------

/- What was read for a field that may be read once. -/
def readOnce
    {α : Type}
    (field : String)
    (earlier : Option α)
    (read : Except ReadError α) :
    Except ReadError (Option α) :=
  match earlier with
  | some _ => .error (.rejected (.duplicateField field))
  | none => read.map some

/- What was read for a field that must be there. -/
def required
    {α : Type}
    (field : String)
    (read : Option α) : Except ReadError α :=
  match read with
  | some a => .ok a
  | none => .error (.rejected (.missingField field))

/-
  The content of the element at a position, or the rejection
  of an array that is too short.
-/
def readElement
    {α : Type}
    (expected : String)
    (closed : Bool)
    (position : Nat)
    (read : Tree → Except ReadError α)
    (items : List Tree) : Except ReadError α :=
  match items[position]? with
  | some tree => read tree
  | none =>
      if closed then
        .error (.rejected (.wrongLength position expected))
      else
        .error .malformed

------------------------------------------------------------
-- Records
------------------------------------------------------------

namespace Signature

/- What is expected where a record must stand. -/
def expected : String := "struct Signature"

/- The fields of a record that have been read. -/
structure Draft where
  keyId : Option HexText
  method : Option String
  sig : Option HexText

/- A draft with the fields of members. -/
def Draft.read
    (draft : Draft) :
    List (String × Tree) → Except ReadError Draft
| [] => .ok draft
| (key, tree) :: rest =>
    if key = "keyid" then do
      let keyId ←
        readOnce key draft.keyId
          (HexText.ofTree HexText.parseKeyId tree)
      Draft.read ⟨keyId, draft.method, draft.sig⟩ rest
    else if key = "method" then do
      let method ←
        readOnce key draft.method tree.readString
      Draft.read ⟨draft.keyId, method, draft.sig⟩ rest
    else if key = "sig" then do
      let sig ←
        readOnce key draft.sig
          (HexText.ofTree HexText.parseSignature tree)
      Draft.read ⟨draft.keyId, draft.method, sig⟩ rest
    else
      .error (.rejected (.unknownField key fields))

/- The record of a draft with all fields. -/
def Draft.finish
    (draft : Draft) : Except ReadError Signature := do
  let keyId ← required "keyid" draft.keyId
  let method ← required "method" draft.method
  let sig ← required "sig" draft.sig
  return ⟨keyId, method, sig⟩

/- The record that a tree writes. -/
def ofTree (tree : Tree) : Except ReadError Signature :=
  match tree with
  | .object members closed => do
      let draft ← Draft.read ⟨none, none, none⟩ members
      let draft ← Json.whenClosed closed draft
      draft.finish
  | .array items closed => do
      let expected := expected ++ " with 3 elements"
      let keyId ←
        readElement expected closed 0
          (HexText.ofTree HexText.parseKeyId) items
      let method ←
        readElement expected closed 1 Tree.readString items
      let sig ←
        readElement expected closed 2
          (HexText.ofTree HexText.parseSignature) items
      Json.whenClosed (closed && items.length ≤ 3)
        ⟨keyId, method, sig⟩
  | _ => tree.reject .number expected

/- The records of elements. -/
def ofTrees :
    List Tree → Except ReadError (List Signature)
| [] => .ok []
| tree :: trees => do
    let signature ← ofTree tree
    let signatures ← ofTrees trees
    return signature :: signatures

/- The record that a text writes. -/
def ofText (text : String) : Except ReadError Signature := do
  let document := Document.ofText text
  let signature ← ofTree document.root
  Json.whenClosed (!document.trailing) signature

end Signature

end SignedMetadata
