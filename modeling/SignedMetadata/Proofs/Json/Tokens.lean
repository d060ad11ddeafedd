import SignedMetadata.Json.Tree
import SignedMetadata.Proofs.Json.Scanning

/-
  The tokens of a tree.

  A tree that is complete is written by one sequence of
  tokens.  A number in it is always followed by a token that
  delimits it, so that every way to write the sequence is
  scanned to the sequence.

  Main declarations:
    * `Tree.Complete`
    * `Tree.depth`
    * `Tree.tokens`
    * `Tree.ofText_eq_tokens`
    * `Writes`
-/

namespace SignedMetadata

namespace Json

namespace Tree

------------------------------------------------------------
-- Complete Trees
------------------------------------------------------------

mutual

/- Nothing of the tree is broken or left open. -/
def Complete : Tree → Prop
| .null => True
| .bool _ => True
| .number _ => True
| .string _ => True
| .array items closed =>
    closed = true ∧ CompleteItems items
| .object members closed =>
    closed = true ∧ CompleteMembers members
| .broken => False

/- Every element is complete. -/
def CompleteItems : List Tree → Prop
| [] => True
| tree :: trees => Complete tree ∧ CompleteItems trees

/- Every member value is complete. -/
def CompleteMembers : List (String × Tree) → Prop
| [] => True
| (_, tree) :: rest => Complete tree ∧ CompleteMembers rest

end

mutual

/- How many containers enclose the innermost part. -/
def depth : Tree → Nat
| .null => 0
| .bool _ => 0
| .number _ => 0
| .string _ => 0
| .array items _ => 1 + depthItems items
| .object members _ => 1 + depthMembers members
| .broken => 0

/- The greatest depth of an element. -/
def depthItems : List Tree → Nat
| [] => 0
| tree :: trees => max (depth tree) (depthItems trees)

/- The greatest depth of a member value. -/
def depthMembers : List (String × Tree) → Nat
| [] => 0
| (_, tree) :: rest => max (depth tree) (depthMembers rest)

end

------------------------------------------------------------
-- Tokens
------------------------------------------------------------

mutual

/- The tokens that write a tree. -/
def tokens : Tree → List Token
| .null => [.null]
| .bool b => [.bool b]
| .number literal => [.number literal]
| .string text => [.string text]
| .array items _ =>
    .leftBracket :: (itemTokens [] items ++ [.rightBracket])
| .object members _ =>
    .leftBrace :: (memberTokens [] members ++ [.rightBrace])
| .broken => [.broken]

/-
  The tokens that write elements.  `lead` stands before the
  first, and a comma before every other element.
-/
def itemTokens (lead : List Token) : List Tree → List Token
| [] => []
| tree :: trees =>
    lead ++ (tokens tree ++ itemTokens [.comma] trees)

/- The tokens that write members, likewise. -/
def memberTokens
    (lead : List Token) : List (String × Tree) → List Token
| [] => []
| (key, tree) :: rest =>
    lead ++ .string key :: .colon ::
      (tokens tree ++ memberTokens [.comma] rest)

end

/- A tree starts with a token that closes no array. -/
theorem exists_cons_tokens (tree : Tree) :
    ∃ token rest,
      tree.tokens = token :: rest ∧ token ≠ .rightBracket := by
  cases tree with
  | _ => exact ⟨_, _, rfl, by simp⟩

------------------------------------------------------------
-- Tokens that May Touch
------------------------------------------------------------

open Phase (MayTouch mayTouch_append mayTouch_cons)

mutual

/- The tokens of a tree may touch. -/
theorem mayTouch_tokens (tree : Tree) :
    tree.tokens.IsChain MayTouch := by
  cases tree with
  | array items closed =>
      apply mayTouch_cons rfl
      exact
        mayTouch_append rfl (mayTouch_itemTokens items)
          (List.isChain_singleton _)
  | object members closed =>
      apply mayTouch_cons rfl
      exact
        mayTouch_append rfl (mayTouch_memberTokens members)
          (List.isChain_singleton _)
  | _ => exact List.isChain_singleton _

/- The tokens of elements may touch. -/
theorem mayTouch_itemTokens (trees : List Tree) :
    (itemTokens [] trees).IsChain MayTouch := by
  match trees with
  | [] => exact List.isChain_nil
  | [tree] =>
      rw [itemTokens, itemTokens, List.append_nil]
      exact mayTouch_tokens tree
  | tree :: next :: trees =>
      have hRest := mayTouch_itemTokens (next :: trees)
      exact
        mayTouch_append rfl (mayTouch_tokens tree)
          (mayTouch_cons rfl hRest)

/- The tokens of members may touch. -/
theorem mayTouch_memberTokens
    (members : List (String × Tree)) :
    (memberTokens [] members).IsChain MayTouch := by
  match members with
  | [] => exact List.isChain_nil
  | [(key, tree)] =>
      apply mayTouch_cons rfl
      apply mayTouch_cons rfl
      rw [memberTokens, List.append_nil]
      exact mayTouch_tokens tree
  | (key, tree) :: next :: rest =>
      have hRest := mayTouch_memberTokens (next :: rest)
      apply mayTouch_cons rfl
      apply mayTouch_cons rfl
      exact
        mayTouch_append rfl (mayTouch_tokens tree)
          (mayTouch_cons rfl hRest)

end

/- A text that writes the tokens of a tree has the tokens. -/
theorem ofText_eq_tokens
    {tree : Tree}
    {text : String}
    (hText : WrittenTokens tree.tokens text.toList) :
    Token.ofText text = tree.tokens := by
  exact
    Phase.scan_writtenTokens hText (mayTouch_tokens tree)

end Tree

/- The text is JSON and writes the tree. -/
def Writes (text : String) (tree : Tree) : Prop :=
  tree.Complete ∧ WrittenTokens tree.tokens text.toList

end Json

end SignedMetadata
