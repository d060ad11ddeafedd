import SignedMetadata.Proofs.Json.Nesting
import SignedMetadata.Proofs.Members
import SignedMetadata.Proofs.Reading.Steps

/-
  Trees whose objects do not repeat a key.

  A tree passes the check for repeated keys exactly if it is
  complete and the keys of each of its objects are distinct.
  Data is read from complete trees only, but a repeated key
  does not keep it from being read.

  Main declarations:
    * `Tree.Distinct`
    * `Tree.Avoids`
    * `checkKeys_eq_ok_iff`
    * `RepeatsKey`
    * `checkText_ne_ok_of_repeatsKey`
    * `complete_of_ofTree`
-/

namespace SignedMetadata

open Fallible

namespace Json

------------------------------------------------------------
-- Keys
------------------------------------------------------------

namespace Tree

mutual

/- No object of the tree repeats a key. -/
def Distinct : Tree → Prop
| .null => True
| .bool _ => True
| .number _ => True
| .string _ => True
| .array items _ => DistinctItems items
| .object members _ =>
    (Members.keys members).Nodup ∧ DistinctMembers members
| .broken => True

/- No object of the elements repeats a key. -/
def DistinctItems : List Tree → Prop
| [] => True
| tree :: trees => Distinct tree ∧ DistinctItems trees

/- No object of the member values repeats a key. -/
def DistinctMembers : List (String × Tree) → Prop
| [] => True
| (_, tree) :: rest => Distinct tree ∧ DistinctMembers rest

end

mutual

/- No object of the tree has the key. -/
def Avoids (key : String) : Tree → Prop
| .null => True
| .bool _ => True
| .number _ => True
| .string _ => True
| .array items _ => AvoidsItems key items
| .object members _ => AvoidsMembers key members
| .broken => True

/- No object of the elements has the key. -/
def AvoidsItems (key : String) : List Tree → Prop
| [] => True
| tree :: trees => Avoids key tree ∧ AvoidsItems key trees

/- No member has the key, and no member value. -/
def AvoidsMembers
    (key : String) : List (String × Tree) → Prop
| [] => True
| (k, tree) :: rest =>
    k ≠ key ∧ Avoids key tree ∧ AvoidsMembers key rest

end

end Tree

/- An object that does not have a key passes none. -/
theorem not_passesLiteral_of_avoids
    {members : List (String × Tree)}
    (hAvoids : Tree.AvoidsMembers literalKey members) :
    ¬ PassesLiteral members := by
  cases members with
  | nil => exact Option.not_mem_none _
  | cons member rest =>
      rw [passesLiteral_cons]
      exact hAvoids.1

------------------------------------------------------------
-- Repeated Keys
------------------------------------------------------------

mutual

/- The check passes complete trees without repeated keys. -/
theorem checkKeys_eq_ok_iff (tree : Tree) :
    checkKeys tree = .ok () ↔
      tree.Complete ∧ tree.Distinct := by
  cases tree with
  | array items closed =>
      rw [checkKeys_array_iff,
        checkItemKeys_eq_ok_iff items, Tree.Complete,
        Tree.Distinct]
      tauto
  | object members closed =>
      rw [checkKeys_object_iff,
        checkMemberKeys_eq_ok_iff [] members, Tree.Complete,
        Tree.Distinct]
      simp only [List.not_mem_nil, not_false_eq_true,
        implies_true, and_true]
      tauto
  | broken =>
      simp [checkKeys, Tree.Complete]
  | _ => exact iff_of_true rfl ⟨trivial, trivial⟩

/- The check passes such elements. -/
theorem checkItemKeys_eq_ok_iff (trees : List Tree) :
    checkItemKeys trees = .ok () ↔
      Tree.CompleteItems trees ∧
        Tree.DistinctItems trees := by
  cases trees with
  | nil => exact iff_of_true rfl ⟨trivial, trivial⟩
  | cons tree trees =>
      rw [checkItemKeys_cons_iff, checkKeys_eq_ok_iff tree,
        checkItemKeys_eq_ok_iff trees, Tree.CompleteItems,
        Tree.DistinctItems]
      tauto

/- The check passes such members with new, distinct keys. -/
theorem checkMemberKeys_eq_ok_iff
    (seen : List String)
    (members : List (String × Tree)) :
    checkMemberKeys seen members = .ok () ↔
      Tree.CompleteMembers members ∧
        ((Members.keys members).Nodup ∧
          Tree.DistinctMembers members) ∧
        ∀ k ∈ Members.keys members, k ∉ seen := by
  cases members with
  | nil =>
      exact
        iff_of_true rfl
          ⟨trivial, ⟨List.nodup_nil, trivial⟩, by simp⟩
  | cons member rest =>
      rcases member with ⟨key, tree⟩
      have hNew :
          (∀ k ∈ Members.keys rest, k ∉ key :: seen) ↔
            key ∉ Members.keys rest ∧
              ∀ k ∈ Members.keys rest, k ∉ seen := by
        simp only [List.mem_cons, not_or]
        constructor
        · intro hRest
          refine ⟨?_, fun k hk => (hRest k hk).2⟩
          intro hKey
          exact (hRest key hKey).1 rfl
        · rintro ⟨hKey, hRest⟩ k hk
          refine ⟨?_, hRest k hk⟩
          rintro rfl
          exact hKey hk
      rw [checkMemberKeys_cons_iff, checkKeys_eq_ok_iff tree,
        checkMemberKeys_eq_ok_iff (key :: seen) rest, hNew,
        Tree.CompleteMembers, Tree.DistinctMembers,
        Members.keys_cons, List.nodup_cons,
        List.forall_mem_cons]
      tauto

end

------------------------------------------------------------
-- Texts with Repeated Keys
------------------------------------------------------------

/-
  Some object of the text has two members with the same key,
  once escapes are resolved.  The text may be any JSON text,
  however deep; of other texts, what stands before the first
  fault counts.
-/
def RepeatsKey (text : String) : Prop :=
  (∃ tree, Writes text tree ∧ ¬ tree.Distinct) ∨
    ¬ (Document.ofText text).root.Distinct

/- The check does not pass a text with a repeated key. -/
theorem checkText_ne_ok_of_repeatsKey
    {text : String}
    (hRepeats : RepeatsKey text) :
    checkText text ≠ .ok () := by
  intro hText
  rcases checkText_eq_ok_iff.mp hText with ⟨_, hKeys⟩
  rcases (checkKeys_eq_ok_iff _).mp hKeys with
    ⟨hRoot, hDistinct⟩
  rcases hRepeats with ⟨tree, hWrites, hTree⟩ | hBefore
  · rcases hWrites with ⟨hComplete, hTokens⟩
    -- The text is read to its end, so it is not too deep.
    have hDepth :=
      (Tree.complete_ofText_iff hComplete hTokens).mp hRoot
    rw [Tree.ofText_of_writtenTokens hComplete hDepth
      hTokens] at hDistinct
    exact hTree hDistinct
  · exact hBefore hDistinct

------------------------------------------------------------
-- Complete Trees
------------------------------------------------------------

mutual

/- Data is read from complete trees only. -/
theorem complete_of_ofTree
    (tree : Tree)
    {json : Json}
    (hJson : ofTree tree = .ok json) :
    tree.Complete := by
  cases tree with
  | array items closed =>
      rcases ofTree_array_iff.mp hJson with
        ⟨jsons, hJsons, hClosed, _⟩
      exact ⟨hClosed, completeItems_of_ofTrees items hJsons⟩
  | object members closed =>
      by_cases hPlain : PassesLiteral members
      · cases members with
        | nil => exact absurd hPlain (Option.not_mem_none _)
        | cons member rest =>
            rcases member with ⟨key, tree⟩
            rw [passesLiteral_cons] at hPlain
            dsimp only at hPlain
            subst hPlain
            rcases ofTree_literal_iff.mp hJson with
              ⟨text, rfl, _, hClosed, rfl⟩
            exact ⟨hClosed, trivial, trivial⟩
      · rcases (ofTree_object_iff hPlain).mp hJson with
          ⟨jsons, hJsons, hClosed, _⟩
        exact
          ⟨hClosed, completeMembers_of_ofMembers members hJsons⟩
  | broken => cases hJson
  | _ => exact trivial

/- Elements are read from complete trees only. -/
theorem completeItems_of_ofTrees
    (trees : List Tree)
    {jsons : List Json}
    (hJsons : ofTrees trees = .ok jsons) :
    Tree.CompleteItems trees := by
  cases trees with
  | nil => exact trivial
  | cons tree trees =>
      rcases ofTrees_cons_iff.mp hJsons with
        ⟨json, hHead, rest, hTail, _⟩
      exact
        ⟨complete_of_ofTree tree hHead,
          completeItems_of_ofTrees trees hTail⟩

/- Members are read from complete trees only. -/
theorem completeMembers_of_ofMembers
    (members : List (String × Tree))
    {read jsons : Members Json}
    (hJsons : ofMembers read members = .ok jsons) :
    Tree.CompleteMembers members := by
  cases members with
  | nil => exact trivial
  | cons member rest =>
      rcases ofMembers_cons_iff.mp hJsons with
        ⟨json, hHead, hTail⟩
      exact
        ⟨complete_of_ofTree member.2 hHead,
          completeMembers_of_ofMembers rest hTail⟩

end

end Json

end SignedMetadata
