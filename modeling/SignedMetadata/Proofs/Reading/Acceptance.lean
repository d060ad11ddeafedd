import SignedMetadata.Proofs.Json.Assembly
import SignedMetadata.Proofs.Reading.Agreement
import SignedMetadata.Proofs.Reading.Literals
import SignedMetadata.Proofs.Value.Containers

/-
  Trees that hold a value are read in stages as the value.

  The value must be well formed, and no object of the tree
  may pass a literal; none does if the value does not bind
  `literalKey`.  Distinct keys pass the check for repeated
  keys, and the members come out in key order however they
  stand in the tree, so that nothing of the tree remains but
  the value.

  Main declarations:
    * `Value.plain_of_holds`
    * `Value.Accepted`
    * `Value.accepted_of_holds`
-/

namespace SignedMetadata

open Json (Tree)

namespace Value

------------------------------------------------------------
-- Plain Trees
------------------------------------------------------------

mutual

/- A tree of a value without `literalKey` is plain. -/
theorem plain_of_holds
    (tree : Tree)
    {v : Value}
    (hHolds : tree.Holds v)
    (hAvoids : v.Avoids literalKey) :
    tree.Plain := by
  cases tree with
  | array items closed =>
      rcases hHolds with ⟨_, vs, hItems, rfl⟩
      exact plainItems_of_holds items hItems hAvoids
  | object members closed =>
      rcases hHolds with ⟨_, pairs, ms, hPairs, hOrder, rfl⟩
      have hAvoids' : AvoidsMembers literalKey pairs := by
        rw [avoidsMembers_iff]
        intro m hm
        exact
          avoidsMembers_iff.mp hAvoids m
            (hOrder.mem_iff.mp hm)
      exact plainMembers_of_holds members hPairs hAvoids'
  | _ => exact trivial

/- Trees of elements without `literalKey` are plain. -/
theorem plainItems_of_holds
    (trees : List Tree)
    {vs : List Value}
    (hHolds : Tree.HoldsItems trees vs)
    (hAvoids : AvoidsItems literalKey vs) :
    Tree.PlainItems trees := by
  cases trees with
  | nil => exact trivial
  | cons tree trees =>
      rcases hHolds with ⟨v, vs, hHead, hTail, rfl⟩
      exact
        ⟨plain_of_holds tree hHead hAvoids.1,
          plainItems_of_holds trees hTail hAvoids.2⟩

/- Members without `literalKey` are plain and pass none. -/
theorem plainMembers_of_holds
    (members : List (String × Tree))
    {pairs : List (String × Value)}
    (hHolds : Tree.HoldsMembers members pairs)
    (hAvoids : AvoidsMembers literalKey pairs) :
    ¬ Json.PassesLiteral members ∧
      Tree.PlainMembers members := by
  cases members with
  | nil => exact ⟨by simp [Json.PassesLiteral], trivial⟩
  | cons member rest =>
      rcases hHolds with ⟨v, pairs, hHead, hTail, rfl⟩
      rw [Json.passesLiteral_cons]
      have hRest :=
        plainMembers_of_holds rest hTail hAvoids.2.2
      exact
        ⟨hAvoids.1,
          plain_of_holds member.2 hHead hAvoids.2.1,
          hRest.2⟩

end

------------------------------------------------------------
-- Acceptance
------------------------------------------------------------

/- The tree is read in stages as the value. -/
def Accepted (tree : Tree) (v : Value) : Prop :=
  Json.checkKeys tree = .ok () ∧
    ∃ json,
      Json.ofTree tree = .ok json ∧
        ∀ limits path,
          path.length + v.depth ≤ limits.maxDepth →
            ofJsonAt limits path json = .ok v

/- What is read in stages is read directly once resolved. -/
theorem Accepted.ofTree_resolved
    {tree : Tree}
    {v : Value}
    (hAccepted : Accepted tree v) :
    ofTree tree.resolved = .ok v := by
  rcases hAccepted with ⟨hKeys, json, hJson, hConverted⟩
  have hRoom : Path.root.length + v.depth ≤ v.depth :=
    Nat.le_of_eq (Nat.zero_add v.depth)
  exact
    Value.ofTree_resolved tree hKeys hJson
      (hConverted ⟨v.depth, 0⟩ .root hRoom)

/- The elements are read in stages as the values. -/
def AcceptedItems
    (trees : List Tree)
    (vs : List Value) : Prop :=
  Json.checkItemKeys trees = .ok () ∧
    ∃ jsons,
      Json.ofTrees trees = .ok jsons ∧
        ∀ limits path position,
          path.length + (1 + depthItems vs) ≤
              limits.maxDepth →
            ofJsonItems limits path position jsons = .ok vs

/- The members are read in stages as the pairs. -/
def AcceptedMembers
    (members : List (String × Tree))
    (pairs : List (String × Value)) : Prop :=
  (∀ seen,
    (seen ++ Members.keys pairs).Nodup →
      Json.checkMemberKeys seen members = .ok ()) ∧
    ∃ jsons : Members Json,
      (∀ read,
        Json.ofMembers read members =
          .ok
            (jsons.foldl
              (fun read m => Members.insert m.1 m.2 read)
              read)) ∧
        ∀ limits path,
          path.length + (1 + depthMembers pairs) ≤
              limits.maxDepth →
            Converts limits path jsons pairs

/- Accepted elements make an accepted array. -/
theorem AcceptedItems.array
    {trees : List Tree}
    {vs : List Value}
    (hItems : AcceptedItems trees vs) :
    Accepted (.array trees true) (.sequence vs) := by
  rcases hItems with ⟨hKeys, jsons, hJsons, hValues⟩
  refine ⟨?_, .array jsons, ?_, ?_⟩
  · exact Json.checkKeys_array_iff.mpr ⟨hKeys, rfl⟩
  · exact
      Json.ofTree_array_iff.mpr ⟨jsons, hJsons, rfl, rfl⟩
  · intro limits path hDepth
    rw [depth] at hDepth
    exact
      ofJsonAt_array_iff.mpr
        ⟨by omega, vs, hValues limits path 0 hDepth, rfl⟩

/- No elements are accepted as none. -/
theorem AcceptedItems.nil : AcceptedItems [] [] := by
  exact ⟨rfl, [], rfl, fun _ _ _ _ => rfl⟩

/- An accepted element may stand before others. -/
theorem AcceptedItems.cons
    {tree : Tree}
    {trees : List Tree}
    {v : Value}
    {vs : List Value}
    (hHead : Accepted tree v)
    (hTail : AcceptedItems trees vs) :
    AcceptedItems (tree :: trees) (v :: vs) := by
  rcases hHead with ⟨hKeys, json, hJson, hValue⟩
  rcases hTail with ⟨hRest, jsons, hJsons, hValues⟩
  refine ⟨?_, json :: jsons, ?_, ?_⟩
  · exact Json.checkItemKeys_cons_iff.mpr ⟨hKeys, hRest⟩
  · exact
      Json.ofTrees_cons_iff.mpr
        ⟨json, hJson, jsons, hJsons, rfl⟩
  · intro limits path position hDepth
    rw [depthItems] at hDepth
    refine ofJsonItems_cons_iff.mpr ⟨v, ?_, vs, ?_, rfl⟩
    · apply hValue
      rw [length_index]
      omega
    · exact hValues limits path _ (by omega)

/- No members are accepted as none. -/
theorem AcceptedMembers.nil : AcceptedMembers [] [] := by
  exact
    ⟨fun _ _ => rfl, [], fun _ => rfl,
      fun _ _ _ => List.Forall₂.nil⟩

/- An accepted value may be bound before other members. -/
theorem AcceptedMembers.cons
    {tree : Tree}
    {rest : List (String × Tree)}
    {v : Value}
    {pairs : List (String × Value)}
    (key : String)
    (hHead : Accepted tree v)
    (hTail : AcceptedMembers rest pairs) :
    AcceptedMembers ((key, tree) :: rest)
      ((key, v) :: pairs) := by
  rcases hHead with ⟨hKeys, json, hJson, hValue⟩
  rcases hTail with ⟨hRest, jsons, hJsons, hValues⟩
  refine ⟨?_, (key, json) :: jsons, ?_, ?_⟩
  · intro seen hNodup
    rw [Members.keys_cons] at hNodup
    have hFront := List.perm_middle.nodup_iff.mp hNodup
    have hNew := (List.nodup_cons.mp hFront).1
    rw [List.mem_append, not_or] at hNew
    exact
      Json.checkMemberKeys_cons_iff.mpr
        ⟨hKeys, hNew.1, hRest (key :: seen) hFront⟩
  · intro read
    exact
      Json.ofMembers_cons_iff.mpr ⟨json, hJson, hJsons _⟩
  · intro limits path hDepth
    rw [depthMembers] at hDepth
    refine
      List.Forall₂.cons ⟨rfl, ?_⟩
        (hValues limits path (by omega))
    apply hValue
    rw [length_field]
    omega

/-
  Accepted members make an accepted object, whatever order
  they stand in.
-/
theorem AcceptedMembers.object
    {members : List (String × Tree)}
    {pairs ms : List (String × Value)}
    (hMembers : AcceptedMembers members pairs)
    (hPlain : ¬ Json.PassesLiteral members)
    (hOrder : pairs.Perm ms)
    (hAscending : Members.Ascending ms) :
    Accepted (.object members true) (.mapping ms) := by
  rcases hMembers with ⟨hKeys, jsons, hJsons, hValues⟩
  have hNodup : (Members.keys pairs).Nodup :=
    (hOrder.map Prod.fst).nodup_iff.mpr
      (Members.nodup_keys_of_ascending hAscending)
  refine ⟨?_, .object (Members.ofList jsons), ?_, ?_⟩
  · exact
      Json.checkKeys_object_iff.mpr ⟨hKeys [] hNodup, rfl⟩
  · exact
      (Json.ofTree_object_iff hPlain).mpr
        ⟨Members.ofList jsons, hJsons [], rfl, rfl⟩
  · intro limits path hDepth
    rw [depth, ← depthMembers_perm hOrder] at hDepth
    have hConverts :
        Converts limits path (Members.ofList jsons)
          (Members.ofList pairs) :=
      Members.Paired.foldl_insert List.Forall₂.nil
        (hValues limits path hDepth)
    rw [Members.ofList_eq_of_perm hAscending hOrder]
      at hConverts
    exact
      (ofJsonAt_object_iff
        (Members.ascending_ofList jsons)).mpr
        ⟨by omega, ms, hConverts, rfl⟩

mutual

/- A tree that holds a value is accepted as the value. -/
theorem accepted_of_holds
    (tree : Tree)
    {v : Value}
    (hHolds : tree.Holds v)
    (hWell : v.WellFormed)
    (hPlain : tree.Plain) :
    Accepted tree v := by
  cases tree with
  | null =>
      cases hHolds
      exact ⟨rfl, .null, rfl, fun _ _ _ => rfl⟩
  | bool b =>
      cases hHolds
      exact ⟨rfl, .bool b, rfl, fun _ _ _ => rfl⟩
  | number literal =>
      rcases hHolds with ⟨i, hNumeral, rfl⟩
      refine ⟨rfl, .number literal, rfl, ?_⟩
      intro limits path _
      exact
        ofJsonAt_number_iff.mpr
          ⟨i, integerOfLiteral_of_numeral hNumeral hWell, rfl⟩
  | string text =>
      cases hHolds
      exact ⟨rfl, .string text, rfl, fun _ _ _ => rfl⟩
  | array items closed =>
      rcases hHolds with ⟨rfl, vs, hItems, rfl⟩
      exact
        (acceptedItems_of_holds items hItems hWell
          hPlain).array
  | object members closed =>
      rcases hHolds with ⟨rfl, pairs, ms, hPairs, hOrder, rfl⟩
      have hWell' : WellFormedMembers pairs := by
        rw [wellFormedMembers_iff]
        intro m hm
        exact
          wellFormedMembers_iff.mp hWell.2 m
            (hOrder.mem_iff.mp hm)
      exact
        (acceptedMembers_of_holds members hPairs hWell'
          hPlain.2).object
          hPlain.1 hOrder hWell.1
  | broken => exact absurd hHolds (by simp [Tree.Holds])

/- Trees that hold elements are accepted as the elements. -/
theorem acceptedItems_of_holds
    (trees : List Tree)
    {vs : List Value}
    (hHolds : Tree.HoldsItems trees vs)
    (hWell : WellFormedItems vs)
    (hPlain : Tree.PlainItems trees) :
    AcceptedItems trees vs := by
  cases trees with
  | nil =>
      cases hHolds
      exact .nil
  | cons tree trees =>
      rcases hHolds with ⟨v, vs, hHead, hTail, rfl⟩
      exact
        .cons
          (accepted_of_holds tree hHead hWell.1 hPlain.1)
          (acceptedItems_of_holds trees hTail hWell.2
            hPlain.2)

/- Trees that hold pairs are accepted as the pairs. -/
theorem acceptedMembers_of_holds
    (members : List (String × Tree))
    {pairs : List (String × Value)}
    (hHolds : Tree.HoldsMembers members pairs)
    (hWell : WellFormedMembers pairs)
    (hPlain : Tree.PlainMembers members) :
    AcceptedMembers members pairs := by
  cases members with
  | nil =>
      cases hHolds
      exact .nil
  | cons member rest =>
      rcases member with ⟨key, tree⟩
      rcases hHolds with ⟨v, pairs, hHead, hTail, rfl⟩
      exact
        .cons key
          (accepted_of_holds tree hHead hWell.1 hPlain.1)
          (acceptedMembers_of_holds rest hTail hWell.2
            hPlain.2)

end

end Value

end SignedMetadata
