import SignedMetadata.Proofs.Conversion
import SignedMetadata.Proofs.Reading.Steps

/-
  Reading in stages and reading directly.

  In stages, a text is checked for repeated keys, read as
  data, and converted.  Directly, it is read as a value at
  once.  The two ways agree on every tree, except that an
  object under `literalKey` is a number in stages and nothing
  directly: what is read in stages is the value of the tree
  in which numbers stand for these objects.

  Main declarations:
    * `Json.Tree.Plain`
    * `Json.Tree.resolved`
    * `Value.ofTree_resolved`
    * `Value.plain_of_ofTree`
-/

namespace SignedMetadata

namespace Json

------------------------------------------------------------
-- Plain Trees
------------------------------------------------------------

namespace Tree

mutual

/- No object of the tree passes a literal. -/
def Plain : Tree → Prop
| .null => True
| .bool _ => True
| .number _ => True
| .string _ => True
| .array items _ => PlainItems items
| .object members _ =>
    ¬ PassesLiteral members ∧ PlainMembers members
| .broken => True

/- No object of the elements passes a literal. -/
def PlainItems : List Tree → Prop
| [] => True
| tree :: trees => Plain tree ∧ PlainItems trees

/- No object of the member values passes a literal. -/
def PlainMembers : List (String × Tree) → Prop
| [] => True
| (_, tree) :: rest => Plain tree ∧ PlainMembers rest

end

------------------------------------------------------------
-- Resolved Trees
------------------------------------------------------------

/- The number that is passed as a string. -/
def passedNumber : Tree → Tree
| .string text =>
    match literal text with
    | .ok digits => .number digits
    | .error _ => .broken
| _ => .broken

mutual

/- The tree with numbers for objects that pass a literal. -/
def resolved : Tree → Tree
| .null => .null
| .bool b => .bool b
| .number digits => .number digits
| .string text => .string text
| .array items closed =>
    .array (resolvedItems items) closed
| .object members closed =>
    match members with
    | [] => .object [] closed
    | (key, tree) :: rest =>
        if key = literalKey then
          passedNumber tree
        else
          .object
            ((key, resolved tree) :: resolvedMembers rest)
            closed
| .broken => .broken

/- The elements with numbers for such objects. -/
def resolvedItems : List Tree → List Tree
| [] => []
| tree :: trees => resolved tree :: resolvedItems trees

/- The members with numbers for such objects. -/
def resolvedMembers :
    List (String × Tree) → List (String × Tree)
| [] => []
| (key, tree) :: rest =>
    (key, resolved tree) :: resolvedMembers rest

end

/- The members of any other object are resolved. -/
theorem resolved_object
    {members : List (String × Tree)}
    {closed : Bool}
    (hPlain : ¬ PassesLiteral members) :
    resolved (.object members closed) =
      .object (resolvedMembers members) closed := by
  cases members with
  | nil => rfl
  | cons member rest =>
      rw [passesLiteral_cons] at hPlain
      rw [resolved, if_neg hPlain, resolvedMembers]

/- Resolving keeps the first key. -/
theorem passesLiteral_resolvedMembers
    {members : List (String × Tree)} :
    PassesLiteral (resolvedMembers members) ↔
      PassesLiteral members := by
  cases members with
  | nil => rfl
  | cons member rest =>
      rw [resolvedMembers, passesLiteral_cons,
        passesLiteral_cons]

mutual

/- A plain tree has nothing to be resolved. -/
theorem resolved_of_plain
    (tree : Tree)
    (hPlain : tree.Plain) :
    tree.resolved = tree := by
  cases tree with
  | array items closed =>
      rw [resolved, resolvedItems_of_plain items hPlain]
  | object members closed =>
      rw [resolved_object hPlain.1,
        resolvedMembers_of_plain members hPlain.2]
  | _ => rfl

/- Plain elements have nothing to be resolved. -/
theorem resolvedItems_of_plain
    (trees : List Tree)
    (hPlain : PlainItems trees) :
    resolvedItems trees = trees := by
  cases trees with
  | nil => rfl
  | cons tree trees =>
      rw [resolvedItems, resolved_of_plain tree hPlain.1,
        resolvedItems_of_plain trees hPlain.2]

/- Plain members have nothing to be resolved. -/
theorem resolvedMembers_of_plain
    (members : List (String × Tree))
    (hPlain : PlainMembers members) :
    resolvedMembers members = members := by
  cases members with
  | nil => rfl
  | cons member rest =>
      rw [resolvedMembers,
        resolved_of_plain member.2 hPlain.1,
        resolvedMembers_of_plain rest hPlain.2]

end

end Tree

/- Reading members keeps ascending key order. -/
theorem ascending_ofMembers
    {read jsons : Members Json}
    {rest : List (String × Tree)}
    (hAscending : Members.Ascending read)
    (hJsons : ofMembers read rest = .ok jsons) :
    Members.Ascending jsons := by
  induction rest generalizing read with
  | nil =>
      cases hJsons
      exact hAscending
  | cons member rest ih =>
      rcases ofMembers_cons_iff.mp hJsons with
        ⟨json, _, hRest⟩
      exact ih (Members.ascending_insert hAscending) hRest

end Json

------------------------------------------------------------
-- Agreement
------------------------------------------------------------

namespace Value

open Json (Tree PassesLiteral)

mutual

/- Only plain trees are read directly. -/
theorem plain_of_ofTree
    (tree : Tree)
    {v : Value}
    (hValue : ofTree tree = .ok v) :
    tree.Plain := by
  cases tree with
  | array items closed =>
      rcases ofTree_array_iff.mp hValue with ⟨vs, hVs, _⟩
      exact plainItems_of_ofTrees items hVs
  | object members closed =>
      rcases ofTree_object_iff.mp hValue with
        ⟨hPlain, ms, hMs, _⟩
      exact
        ⟨hPlain, plainMembers_of_ofMemberTrees members hMs⟩
  | _ => exact trivial

/- Only plain elements are read directly. -/
theorem plainItems_of_ofTrees
    (trees : List Tree)
    {vs : List Value}
    (hVs : ofTrees trees = .ok vs) :
    Tree.PlainItems trees := by
  cases trees with
  | nil => exact trivial
  | cons tree trees =>
      rcases ofTrees_cons_iff.mp hVs with
        ⟨v, hHead, rest, hTail, _⟩
      exact
        ⟨plain_of_ofTree tree hHead,
          plainItems_of_ofTrees trees hTail⟩

/- Only plain members are read directly. -/
theorem plainMembers_of_ofMemberTrees
    (members : List (String × Tree))
    {read ms : Members Value}
    (hMs : ofMemberTrees read members = .ok ms) :
    Tree.PlainMembers members := by
  cases members with
  | nil => exact trivial
  | cons member rest =>
      rcases ofMemberTrees_cons_iff.mp hMs with
        ⟨v, hHead, _, hTail⟩
      exact
        ⟨plain_of_ofTree member.2 hHead,
          plainMembers_of_ofMemberTrees rest hTail⟩

end

mutual

/-
  A tree that is read in stages is read directly once it is
  resolved, with the same value.
-/
theorem ofTree_resolved
    {limits : Limits}
    {path : Path}
    (tree : Tree)
    {json : Json}
    {v : Value}
    (hKeys : Json.checkKeys tree = .ok ())
    (hJson : Json.ofTree tree = .ok json)
    (hValue : ofJsonAt limits path json = .ok v) :
    ofTree tree.resolved = .ok v := by
  cases tree with
  | null =>
      cases hJson
      cases hValue
      rfl
  | bool b =>
      cases hJson
      cases hValue
      rfl
  | number literal =>
      cases hJson
      exact
        ofTree_number_iff.mpr
          (ofJsonAt_number_iff.mp hValue)
  | string text =>
      cases hJson
      cases hValue
      rfl
  | array items closed =>
      have hItems := Json.checkKeys_array_iff.mp hKeys
      rcases Json.ofTree_array_iff.mp hJson with
        ⟨jsons, hJsons, hClosed, rfl⟩
      rcases ofJsonAt_array_iff.mp hValue with
        ⟨_, vs, hVs, rfl⟩
      have hTrees :=
        ofTrees_resolved items hItems.1 hJsons hVs
      exact
        ofTree_array_iff.mpr ⟨vs, hTrees, hClosed, rfl⟩
  | object members closed =>
      by_cases hPlain : PassesLiteral members
      · cases members with
        | nil => simp [PassesLiteral] at hPlain
        | cons member rest =>
            rcases member with ⟨key, tree⟩
            rw [Json.passesLiteral_cons] at hPlain
            dsimp only at hPlain
            subst hPlain
            rcases Json.ofTree_literal_iff.mp hJson with
              ⟨text, rfl, ⟨digits, hDigits, rfl⟩, _⟩
            rw [Tree.resolved, if_pos rfl,
              Tree.passedNumber, hDigits]
            exact
              ofTree_number_iff.mpr
                (ofJsonAt_number_iff.mp hValue)
      · have hMembers := Json.checkKeys_object_iff.mp hKeys
        rcases (Json.ofTree_object_iff hPlain).mp hJson with
          ⟨jsons, hJsons, hClosed, rfl⟩
        have hAscending :=
          Json.ascending_ofMembers Members.ascending_nil
            hJsons
        rcases (ofJsonAt_object_iff hAscending).mp hValue
          with ⟨_, ms, hMs, rfl⟩
        rcases ofMembers_resolved members hMembers.1 hJsons
            hMs (by simp) with
          ⟨read, hRead, hTrees⟩
        cases hRead
        rw [Tree.resolved_object hPlain, ofTree_object_iff,
          Tree.passesLiteral_resolvedMembers]
        exact ⟨hPlain, ms, hTrees, hClosed, rfl⟩
  | broken => cases hJson

/- Elements that are read in stages, likewise. -/
theorem ofTrees_resolved
    {limits : Limits}
    {path : Path}
    {position : Nat}
    (trees : List Tree)
    {jsons : List Json}
    {vs : List Value}
    (hKeys : Json.checkItemKeys trees = .ok ())
    (hJsons : Json.ofTrees trees = .ok jsons)
    (hVs :
      ofJsonItems limits path position jsons = .ok vs) :
    ofTrees (Tree.resolvedItems trees) = .ok vs := by
  cases trees with
  | nil =>
      cases hJsons
      cases hVs
      rfl
  | cons tree trees =>
      have hParts := Json.checkItemKeys_cons_iff.mp hKeys
      rcases Json.ofTrees_cons_iff.mp hJsons with
        ⟨json, hHead, jsons, hTail, rfl⟩
      rcases ofJsonItems_cons_iff.mp hVs with
        ⟨v, hFirst, ws, hRest, rfl⟩
      rw [Tree.resolvedItems, ofTrees_cons_iff]
      exact
        ⟨v, ofTree_resolved tree hParts.1 hHead hFirst, ws,
          ofTrees_resolved trees hParts.2 hTail hRest, rfl⟩

/-
  Members that are read in stages, behind members whose data
  is converted.  A key that was not seen before is new to
  both readers, so neither replaces a binding.
-/
theorem ofMembers_resolved
    {limits : Limits}
    {path : Path}
    {seen : List String}
    (members : List (String × Tree))
    {read jsons : Members Json}
    {ms : Members Value}
    (hKeys : Json.checkMemberKeys seen members = .ok ())
    (hJsons : Json.ofMembers read members = .ok jsons)
    (hMs : Converts limits path jsons ms)
    (hSeen : ∀ k ∈ Members.keys read, k ∈ seen) :
    ∃ values, Converts limits path read values ∧
      ofMemberTrees values (Tree.resolvedMembers members) =
        .ok ms := by
  cases members with
  | nil =>
      cases hJsons
      exact ⟨ms, hMs, rfl⟩
  | cons member rest =>
      rcases member with ⟨key, tree⟩
      rcases Json.checkMemberKeys_cons_iff.mp hKeys with
        ⟨hTree, hUnseen, hRest⟩
      rcases Json.ofMembers_cons_iff.mp hJsons with
        ⟨json, hJson, hTail⟩
      have hNew : key ∉ Members.keys read := by
        intro hKey
        exact hUnseen (hSeen key hKey)
      have hSeen' :
          ∀ k ∈ Members.keys (Members.insert key json read),
            k ∈ key :: seen := by
        intro k hk
        rcases Members.mem_keys_insert.mp hk with rfl | hk
        · exact List.mem_cons_self
        · exact List.mem_cons_of_mem _ (hSeen k hk)
      rcases ofMembers_resolved rest hRest hTail hMs hSeen'
        with ⟨values', hValues', hTrees⟩
      rcases hValues'.exists_of_insert hNew with
        ⟨v, values, hV, hValues, rfl⟩
      refine ⟨values, hValues, ?_⟩
      rw [Tree.resolvedMembers, ofMemberTrees_cons_iff]
      refine ⟨v, ofTree_resolved tree hTree hJson hV, ?_,
        hTrees⟩
      rw [Members.contains_iff, ← hValues.keys_eq]
      exact hNew

end

end Value

end SignedMetadata
