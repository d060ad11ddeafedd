import SignedMetadata.Proofs.Fallible
import SignedMetadata.Reading.Distinct
import SignedMetadata.Reading.Value

/-
  What the readers of trees do at one node.

  For each constructor a reader has a result exactly when it
  has results for the parts and the text closes the node.  An
  object whose first key is `literalKey` is set apart: one
  reader takes it for a number, the other one rejects it.

  Main declarations:
    * `Json.PassesLiteral`
    * `Json.checkKeys_object_iff`
    * `Json.ofTree_object_iff`
    * `Json.ofTree_literal_iff`
    * `Value.ofTree_object_iff`
    * `Value.ofText_eq_ok_iff`
-/

namespace SignedMetadata

open Fallible

namespace Json

/- The first member passes a literal under `literalKey`. -/
def PassesLiteral (members : List (String × Tree)) : Prop :=
  literalKey ∈ (members.head?).map Prod.fst

/- A first member with another key passes no literal. -/
theorem passesLiteral_cons
    {member : String × Tree}
    {rest : List (String × Tree)} :
    PassesLiteral (member :: rest) ↔
      member.1 = literalKey := by
  simp [PassesLiteral]

------------------------------------------------------------
-- Repeated Keys
------------------------------------------------------------

/- No object in an array repeats a key. -/
theorem checkKeys_array_iff
    {items : List Tree}
    {closed : Bool} :
    checkKeys (.array items closed) = .ok () ↔
      checkItemKeys items = .ok () ∧ closed = true := by
  rw [checkKeys, check_eq_ok_iff, whenClosed_eq_ok_iff,
    and_iff_left rfl]

/- An object does not repeat a key. -/
theorem checkKeys_object_iff
    {members : List (String × Tree)}
    {closed : Bool} :
    checkKeys (.object members closed) = .ok () ↔
      checkMemberKeys [] members = .ok () ∧
        closed = true := by
  rw [checkKeys, check_eq_ok_iff, whenClosed_eq_ok_iff,
    and_iff_left rfl]

/- No object in elements repeats a key. -/
theorem checkItemKeys_cons_iff
    {tree : Tree}
    {trees : List Tree} :
    checkItemKeys (tree :: trees) = .ok () ↔
      checkKeys tree = .ok () ∧
        checkItemKeys trees = .ok () := by
  rw [checkItemKeys, check_eq_ok_iff]

/- A member has a key that was not seen before. -/
theorem checkMemberKeys_cons_iff
    {seen : List String}
    {key : String}
    {tree : Tree}
    {rest : List (String × Tree)} :
    checkMemberKeys seen ((key, tree) :: rest) = .ok () ↔
      checkKeys tree = .ok () ∧ key ∉ seen ∧
        checkMemberKeys (key :: seen) rest = .ok () := by
  rw [checkMemberKeys, check_eq_ok_iff, guard_eq_ok_iff]

------------------------------------------------------------
-- Data
------------------------------------------------------------

/- The data of an array holds the data of its elements. -/
theorem ofTree_array_iff
    {items : List Tree}
    {closed : Bool}
    {json : Json} :
    ofTree (.array items closed) = .ok json ↔
      ∃ jsons, ofTrees items = .ok jsons ∧
        closed = true ∧ .array jsons = json := by
  simp only [ofTree, bind_eq_ok_iff, whenClosed_eq_ok_iff]

/- The data of elements is read one by one. -/
theorem ofTrees_cons_iff
    {tree : Tree}
    {trees : List Tree}
    {jsons : List Json} :
    ofTrees (tree :: trees) = .ok jsons ↔
      ∃ first, ofTree tree = .ok first ∧
        ∃ rest, ofTrees trees = .ok rest ∧
          first :: rest = jsons := by
  simp only [ofTrees, bind_eq_ok_iff, return_eq_ok_iff]

/- The data of a member is added to the members before. -/
theorem ofMembers_cons_iff
    {read members : Members Json}
    {key : String}
    {tree : Tree}
    {rest : List (String × Tree)} :
    ofMembers read ((key, tree) :: rest) = .ok members ↔
      ∃ json, ofTree tree = .ok json ∧
        ofMembers (Members.insert key json read) rest =
          .ok members := by
  rw [ofMembers, bind_eq_ok_iff]

/- The data of an object holds the data of its members. -/
theorem ofTree_object_iff
    {members : List (String × Tree)}
    {closed : Bool}
    {json : Json}
    (hPlain : ¬ PassesLiteral members) :
    ofTree (.object members closed) = .ok json ↔
      ∃ jsons, ofMembers [] members = .ok jsons ∧
        closed = true ∧ .object jsons = json := by
  cases members with
  | nil =>
      simp [ofTree, ofMembers, whenClosed_eq_ok_iff]
  | cons member rest =>
      rcases member with ⟨key, tree⟩
      rw [passesLiteral_cons] at hPlain
      simp only [ofTree, if_neg hPlain, bind_eq_ok_iff,
        whenClosed_eq_ok_iff, ofMembers_cons_iff,
        Members.insert]
      constructor
      · rintro ⟨first, hFirst, jsons, hRest, hClosed, rfl⟩
        exact ⟨jsons, ⟨first, hFirst, hRest⟩, hClosed, rfl⟩
      · rintro ⟨jsons, ⟨first, hFirst, hRest⟩, hClosed, rfl⟩
        exact ⟨first, hFirst, jsons, hRest, hClosed, rfl⟩

/- A literal that an object passes is a string of its own. -/
theorem ofLiteralValue_iff
    {tree : Tree}
    {json : Json} :
    ofLiteralValue tree = .ok json ↔
      ∃ text, tree = .string text ∧
        ∃ digits, literal text = .ok digits ∧
          .number digits = json := by
  cases tree with
  | string text =>
      cases hLiteral : literal text with
      | ok digits => simp [ofLiteralValue, hLiteral]
      | error fault =>
          cases fault <;> simp [ofLiteralValue, hLiteral]
  | number digits =>
      cases hInteger : machineInteger? digits <;>
        simp [ofLiteralValue, Tree.reject, Tree.found?,
          hInteger]
  | _ => simp [ofLiteralValue, Tree.reject, Tree.found?]

/- An object with `literalKey` is read as a number. -/
theorem ofTree_literal_iff
    {tree : Tree}
    {rest : List (String × Tree)}
    {closed : Bool}
    {json : Json} :
    ofTree (.object ((literalKey, tree) :: rest) closed) =
        .ok json ↔
      ∃ text, tree = .string text ∧
        (∃ digits, literal text = .ok digits ∧
          .number digits = json) ∧
        closed = true ∧ rest = [] := by
  simp only [ofTree, if_pos, bind_eq_ok_iff,
    whenClosed_eq_ok_iff, ofLiteralValue_iff,
    Bool.and_eq_true, List.isEmpty_iff]
  constructor
  · rintro ⟨number, ⟨text, hTree, hDigits⟩, hClosed, rfl⟩
    exact ⟨text, hTree, hDigits, hClosed⟩
  · rintro ⟨text, hTree, hDigits, hClosed⟩
    exact ⟨json, ⟨text, hTree, hDigits⟩, hClosed, rfl⟩

/- Data is read from a text by the tree of its root. -/
theorem ofText_eq_ok_iff
    {text : String}
    {json : Json} :
    ofText text = .ok json ↔
      (Document.ofText text).trailing = false ∧
        ofTree (Document.ofText text).root = .ok json := by
  exact ofDocument_eq_ok_iff ofTree

/- A text is checked for repeated keys by that tree, too. -/
theorem checkText_eq_ok_iff
    {text : String} :
    checkText text = .ok () ↔
      (Document.ofText text).trailing = false ∧
        checkKeys (Document.ofText text).root = .ok () := by
  exact ofDocument_eq_ok_iff checkKeys

end Json

------------------------------------------------------------
-- Values
------------------------------------------------------------

namespace Value

open Json (Tree Document PassesLiteral passesLiteral_cons)

/- A number is read as the integer of its literal. -/
theorem ofTree_number_iff
    {literal : String}
    {v : Value} :
    ofTree (.number literal) = .ok v ↔
      ∃ i, integerOfLiteral literal = .ok i ∧
        .integer i = v := by
  rw [ofTree, mapError_eq_ok_iff, ofLiteral]
  cases integerOfLiteral literal with
  | ok i => simp
  | error fault => cases fault <;> simp

/- The value of an array holds the values of its elements. -/
theorem ofTree_array_iff
    {items : List Tree}
    {closed : Bool}
    {v : Value} :
    ofTree (.array items closed) = .ok v ↔
      ∃ vs, ofTrees items = .ok vs ∧
        closed = true ∧ .sequence vs = v := by
  simp only [ofTree, bind_eq_ok_iff,
    Json.whenClosed_eq_ok_iff]

/- The values of elements are read one by one. -/
theorem ofTrees_cons_iff
    {tree : Tree}
    {trees : List Tree}
    {vs : List Value} :
    ofTrees (tree :: trees) = .ok vs ↔
      ∃ first, ofTree tree = .ok first ∧
        ∃ rest, ofTrees trees = .ok rest ∧
          first :: rest = vs := by
  simp only [ofTrees, bind_eq_ok_iff, return_eq_ok_iff]

/- The value of a member is bound to a new key. -/
theorem ofMemberTrees_cons_iff
    {read members : Members Value}
    {key : String}
    {tree : Tree}
    {rest : List (String × Tree)} :
    ofMemberTrees read ((key, tree) :: rest) =
        .ok members ↔
      ∃ value, ofTree tree = .ok value ∧
        ¬ Members.contains read key = true ∧
          ofMemberTrees (Members.insert key value read)
            rest = .ok members := by
  simp only [ofMemberTrees, bind_eq_ok_iff, guard_eq_ok_iff]

/- The value of an object holds the values of its members. -/
theorem ofTree_object_iff
    {members : List (String × Tree)}
    {closed : Bool}
    {v : Value} :
    ofTree (.object members closed) = .ok v ↔
      ¬ PassesLiteral members ∧
        ∃ ms, ofMemberTrees [] members = .ok ms ∧
          closed = true ∧ .mapping ms = v := by
  cases members with
  | nil =>
      simp [ofTree, ofMemberTrees, PassesLiteral,
        Json.whenClosed_eq_ok_iff]
  | cons member rest =>
      rcases member with ⟨key, tree⟩
      rw [passesLiteral_cons]
      by_cases hLiteral : key = literalKey
      · cases hFound : tree.found? (.map) <;>
          simp [ofTree, hLiteral, Tree.reject, hFound]
      · simp only [ofTree, if_neg hLiteral, bind_eq_ok_iff,
          Json.whenClosed_eq_ok_iff, ofMemberTrees_cons_iff,
          Members.insert]
        constructor
        · rintro ⟨first, hFirst, ms, hRest, hClosed, rfl⟩
          exact
            ⟨hLiteral, ms,
              ⟨first, hFirst, by simp [Members.contains],
                hRest⟩,
              hClosed, rfl⟩
        · rintro ⟨_, ms, ⟨first, hFirst, _, hRest⟩, hClosed,
            rfl⟩
          exact ⟨first, hFirst, ms, hRest, hClosed, rfl⟩

/- A text is read directly by the tree of its root. -/
theorem ofText_eq_ok_iff
    {text : String}
    {v : Value} :
    ofText text = .ok v ↔
      (Document.ofText text).trailing = false ∧
        ofTree (Document.ofText text).root = .ok v := by
  exact Json.ofDocument_eq_ok_iff ofTree

end Value

end SignedMetadata
