import SignedMetadata.Proofs.Json.Nesting
import SignedMetadata.Proofs.Reading.Acceptance
import SignedMetadata.Proofs.Reading.Bounds
import SignedMetadata.Proofs.Reading.Data

/-
  Three ways to read a text as a value.

  A text is read directly, or it is read as data first, which
  is then converted or read in turn.  The two ways from data
  always agree on a text without `literalKey`; reading
  directly agrees with them except that it also rejects every
  text in which an object repeats a key.

  Main declarations:
    * `accepted_of_ofTree`
    * `readers_agree`
-/

namespace SignedMetadata

namespace Value

open Json (Tree Document)

------------------------------------------------------------
-- Accepted Trees
------------------------------------------------------------

mutual

/- A tree that is read directly is accepted as its value. -/
theorem accepted_of_ofTree
    (tree : Tree)
    {v : Value}
    (hValue : ofTree tree = .ok v) :
    Accepted tree v := by
  cases tree with
  | null =>
      cases hValue
      exact ⟨rfl, .null, rfl, fun _ _ _ => rfl⟩
  | bool b =>
      cases hValue
      exact ⟨rfl, .bool b, rfl, fun _ _ _ => rfl⟩
  | number literal =>
      refine ⟨rfl, .number literal, rfl, ?_⟩
      intro limits path _
      rw [ofJsonAt_number_iff]
      exact ofTree_number_iff.mp hValue
  | string text =>
      cases hValue
      exact ⟨rfl, .string text, rfl, fun _ _ _ => rfl⟩
  | array items closed =>
      rcases ofTree_array_iff.mp hValue with
        ⟨vs, hVs, rfl, rfl⟩
      exact (acceptedItems_of_ofTrees items hVs).array
  | object members closed =>
      have hAscending := (within_of_ofTree _ hValue).1
      rcases ofTree_object_iff.mp hValue with
        ⟨hPlain, ms, hMs, rfl, rfl⟩
      rcases acceptedMembers_of_ofMemberTrees members hMs
        with ⟨pairs, hPairs, hOrder⟩
      exact hPairs.object hPlain hOrder hAscending.1
  | broken => cases hValue

/- Elements that are read directly are accepted. -/
theorem acceptedItems_of_ofTrees
    (trees : List Tree)
    {vs : List Value}
    (hVs : ofTrees trees = .ok vs) :
    AcceptedItems trees vs := by
  cases trees with
  | nil =>
      cases hVs
      exact .nil
  | cons tree trees =>
      rcases ofTrees_cons_iff.mp hVs with
        ⟨v, hHead, rest, hTail, rfl⟩
      exact
        .cons (accepted_of_ofTree tree hHead)
          (acceptedItems_of_ofTrees trees hTail)

/-
  Members that are read directly are accepted as pairs that
  make up the result with the members before them.
-/
theorem acceptedMembers_of_ofMemberTrees
    (members : List (String × Tree))
    {read ms : Members Value}
    (hMs : ofMemberTrees read members = .ok ms) :
    ∃ pairs, AcceptedMembers members pairs ∧
      (read ++ pairs).Perm ms := by
  cases members with
  | nil =>
      cases hMs
      exact ⟨[], .nil, by simp⟩
  | cons member rest =>
      rcases member with ⟨key, tree⟩
      rcases ofMemberTrees_cons_iff.mp hMs with
        ⟨v, hHead, hNew, hTail⟩
      rw [Members.contains_iff] at hNew
      rcases acceptedMembers_of_ofMemberTrees rest hTail with
        ⟨pairs, hPairs, hOrder⟩
      have hInsert :
          (Members.insert key v read ++ pairs).Perm
            ((key, v) :: read ++ pairs) :=
        (Members.insert_perm hNew).append_right pairs
      refine
        ⟨(key, v) :: pairs,
          .cons key (accepted_of_ofTree tree hHead) hPairs,
          ?_⟩
      exact
        (List.perm_middle.trans hInsert.symm).trans hOrder

end

/- A plain tree that holds a value is read as the value. -/
theorem ofTree_of_holds
    {tree : Tree}
    {v : Value}
    (hHolds : tree.Holds v)
    (hWell : v.WellFormed)
    (hPlain : tree.Plain) :
    ofTree tree = .ok v := by
  have hAccepted :=
    accepted_of_holds tree hHolds hWell hPlain
  rw [← hAccepted.ofTree_resolved,
    Tree.resolved_of_plain tree hPlain]

------------------------------------------------------------
-- Texts
------------------------------------------------------------

mutual

/- A tree without `literalKey` is plain. -/
theorem plain_of_avoids
    (tree : Tree)
    (hAvoids : tree.Avoids literalKey) :
    tree.Plain := by
  cases tree with
  | array items closed =>
      exact plainItems_of_avoids items hAvoids
  | object members closed =>
      exact
        ⟨Json.not_passesLiteral_of_avoids hAvoids,
          plainMembers_of_avoids members hAvoids⟩
  | _ => exact trivial

/- Elements without it are plain. -/
theorem plainItems_of_avoids
    (trees : List Tree)
    (hAvoids : Tree.AvoidsItems literalKey trees) :
    Tree.PlainItems trees := by
  cases trees with
  | nil => exact trivial
  | cons tree trees =>
      exact
        ⟨plain_of_avoids tree hAvoids.1,
          plainItems_of_avoids trees hAvoids.2⟩

/- Member values without it are plain. -/
theorem plainMembers_of_avoids
    (members : List (String × Tree))
    (hAvoids : Tree.AvoidsMembers literalKey members) :
    Tree.PlainMembers members := by
  cases members with
  | nil => exact trivial
  | cons member rest =>
      exact
        ⟨plain_of_avoids member.2 hAvoids.2.1,
          plainMembers_of_avoids rest hAvoids.2.2⟩

end

/-
  On every text without `literalKey`, data is converted to a
  value exactly if it is read as it, and the text is read as
  it directly exactly if, moreover, no object of the text
  repeats a key.
-/
theorem readers_agree
    (text : String)
    (hAvoids :
      (Document.ofText text).root.Avoids literalKey) :
    (∀ json v,
      Json.ofText text = .ok json →
        (ofJson .unbounded json = .ok v ↔
          readJson json = .ok v)) ∧
      ∀ v,
        ofText text = .ok v ↔
          (∃ json,
            Json.ofText text = .ok json ∧
              ofJson .unbounded json = .ok v) ∧
            (Document.ofText text).root.Distinct := by
  have hRoom :
      (Document.ofText text).root.depth ≤
        Limits.unbounded.maxDepth :=
    (Json.depth_ofText_le text).trans (by decide)
  refine ⟨?_, ?_⟩
  · intro json v hJson
    have hRoot := (Json.ofText_eq_ok_iff.mp hJson).2
    apply agrees_of_ofTree _ hAvoids hRoot
    exact (Nat.zero_add _).trans_le hRoom
  · intro v
    rw [ofText_eq_ok_iff]
    simp only [Json.ofText_eq_ok_iff]
    constructor
    · rintro ⟨hEnd, hRoot⟩
      rcases accepted_of_ofTree _ hRoot with
        ⟨hKeys, json, hJson, hConverted⟩
      have hDepth := (within_of_ofTree _ hRoot).2
      refine ⟨⟨json, ⟨hEnd, hJson⟩, ?_⟩, ?_⟩
      · apply hConverted
        exact
          (Nat.zero_add _).trans_le (hDepth.trans hRoom)
      · exact ((Json.checkKeys_eq_ok_iff _).mp hKeys).2
    · rintro ⟨⟨json, ⟨hEnd, hJson⟩, hConverted⟩, hDistinct⟩
      have hComplete := Json.complete_of_ofTree _ hJson
      have hKeys :=
        (Json.checkKeys_eq_ok_iff _).mpr
          ⟨hComplete, hDistinct⟩
      have hResolved :=
        ofTree_resolved _ hKeys hJson hConverted
      rw [Tree.resolved_of_plain _
        (plain_of_avoids _ hAvoids)] at hResolved
      exact ⟨hEnd, hResolved⟩

/- An object that repeats a key, once behind an escape. -/
def repeatedKey : String :=
  "\x7b\"a\":1,\"\\u0061\":-0\x7d"

/- The last value of a repeated key stays, or nothing does. -/
theorem readers_agree_repeated_key :
    (Document.ofText repeatedKey).root.Avoids literalKey ∧
      Json.ofText repeatedKey =
          .ok (.object [("a", .number "-0")]) ∧
        readJson (.object [("a", .number "-0")]) =
            .ok (.mapping [("a", .integer 0)]) ∧
          ∀ v, ofText repeatedKey ≠ .ok v := by
  have hRoot :
      (Document.ofText repeatedKey).root =
        .object [("a", .number "1"), ("a", .number "-0")]
          true := by
    rfl
  have hAvoids :
      (Document.ofText repeatedKey).root.Avoids
        literalKey := by
    rw [hRoot]
    exact ⟨by decide, trivial, by decide, trivial, trivial⟩
  have hJson :
      Json.ofText repeatedKey =
        .ok (.object [("a", .number "-0")]) := by
    rfl
  have hConverted :
      ofJson .unbounded (.object [("a", .number "-0")]) =
        .ok (.mapping [("a", .integer 0)]) := by
    rfl
  rcases readers_agree repeatedKey hAvoids with
    ⟨hData, hDirect⟩
  refine ⟨hAvoids, hJson, ?_, ?_⟩
  · exact (hData _ _ hJson).mp hConverted
  · intro v hValue
    have hDistinct := ((hDirect v).mp hValue).2
    rw [hRoot] at hDistinct
    have hKeys : ["a", "a"].Nodup := hDistinct.1
    exact absurd hKeys (by decide)

end Value

end SignedMetadata
