import SignedMetadata.Conversion
import SignedMetadata.Proofs.Fallible
import SignedMetadata.Proofs.Members

/-
  What the conversion of data does at one node.

  Conversion goes through elements and members in order.  The
  members of data that was read are in ascending key order,
  so that inserting their values appends them: an object and
  its mapping have the same keys at the same places.

  Main declarations:
    * `Converts`
    * `ofJsonAt_array_iff`
    * `ofJsonAt_object_iff`
    * `Json.Rejected`
-/

namespace SignedMetadata

open Fallible

/- A container may stand at a path above the depth limit. -/
theorem enter_eq_ok_iff
    {limits : Limits}
    {path : Path} :
    limits.enter path = .ok () ↔
      path.length < limits.maxDepth := by
  unfold Limits.enter
  split <;> simp <;> omega

namespace Value

variable {limits : Limits}
variable {path : Path}

------------------------------------------------------------
-- Numbers and Arrays
------------------------------------------------------------

/- A number is converted to the integer of its literal. -/
theorem ofJsonAt_number_iff
    {literal : String}
    {v : Value} :
    ofJsonAt limits path (.number literal) = .ok v ↔
      ∃ i, integerOfLiteral literal = .ok i ∧
        .integer i = v := by
  rw [ofJsonAt, ofLiteralAt]
  cases integerOfLiteral literal with
  | ok i => simp
  | error fault => cases fault <;> simp

/- An array is converted to the sequence of its elements. -/
theorem ofJsonAt_array_iff
    {items : List Json}
    {v : Value} :
    ofJsonAt limits path (.array items) = .ok v ↔
      path.length < limits.maxDepth ∧
        ∃ vs, ofJsonItems limits path 0 items = .ok vs ∧
          .sequence vs = v := by
  rw [ofJsonAt, check_eq_ok_iff, enter_eq_ok_iff]
  simp only [bind_eq_ok_iff, return_eq_ok_iff]

/- Elements are converted one by one. -/
theorem ofJsonItems_cons_iff
    {position : Nat}
    {json : Json}
    {jsons : List Json}
    {vs : List Value} :
    ofJsonItems limits path position (json :: jsons) =
        .ok vs ↔
      ∃ first,
        ofJsonAt limits (path.index position) json =
            .ok first ∧
          ∃ rest,
            ofJsonItems limits path (position + 1) jsons =
                .ok rest ∧
              first :: rest = vs := by
  simp only [ofJsonItems, bind_eq_ok_iff, return_eq_ok_iff]

------------------------------------------------------------
-- Objects
------------------------------------------------------------

/- Every binding of data is converted under its key. -/
def Converts
    (limits : Limits)
    (path : Path) : Members Json → Members Value → Prop :=
  Members.Paired fun key json v =>
    ofJsonAt limits (path.field key) json = .ok v

/-
  Members with ascending keys, all greater than the keys read
  before, are converted behind these.
-/
theorem ofJsonMembers_iff
    (read ms : Members Value)
    {jsons : Members Json}
    (hAscending :
      (Members.keys read ++ Members.keys jsons).Pairwise
        (· < ·)) :
    ofJsonMembers limits path read jsons = .ok ms ↔
      ∃ rest, Converts limits path jsons rest ∧
        read ++ rest = ms := by
  apply Members.appends_iff _ _ read ms hAscending
  · intro before
    rfl
  · intro before m rest ns _
    rw [ofJsonMembers, bind_eq_ok_iff]

/- An object is converted to the mapping of its members. -/
theorem ofJsonAt_object_iff
    {members : Members Json}
    {v : Value}
    (hAscending : Members.Ascending members) :
    ofJsonAt limits path (.object members) = .ok v ↔
      path.length < limits.maxDepth ∧
        ∃ ms, Converts limits path members ms ∧
          .mapping ms = v := by
  have hMembers :
      ∀ ms,
        ofJsonMembers limits path [] members = .ok ms ↔
          Converts limits path members ms := by
    intro ms
    simpa using ofJsonMembers_iff [] ms hAscending
  rw [ofJsonAt, check_eq_ok_iff, enter_eq_ok_iff]
  simp only [bind_eq_ok_iff, return_eq_ok_iff, hMembers]

end Value

------------------------------------------------------------
-- Data without a Value
------------------------------------------------------------

namespace Json

/- No value is converted from the data, wherever it stands. -/
def Rejected (json : Json) : Prop :=
  ∀ limits path v, Value.ofJsonAt limits path json ≠ .ok v

/- Numbers are rejected if their literals are fractions. -/
theorem rejected_number
    {literal : String}
    (hFraction :
      integerOfLiteral literal = .error .fractional) :
    Rejected (.number literal) := by
  intro limits path v hValue
  rcases Value.ofJsonAt_number_iff.mp hValue with
    ⟨i, hInteger, _⟩
  rw [hFraction] at hInteger
  cases hInteger

/- Arrays are rejected with any of their elements. -/
theorem rejected_array
    {json : Json}
    {items : List Json}
    (hMember : json ∈ items)
    (hRejected : json.Rejected) :
    Rejected (.array items) := by
  have hItems :
      ∀ limits path position vs,
        Value.ofJsonItems limits path position items ≠
          .ok vs := by
    intro limits path
    induction items with
    | nil => cases hMember
    | cons first rest ih =>
        intro position vs hValues
        rcases Value.ofJsonItems_cons_iff.mp hValues with
          ⟨v, hFirst, ws, hRest, _⟩
        rcases List.mem_cons.mp hMember with rfl | hLater
        · exact hRejected _ _ _ hFirst
        · exact ih hLater _ _ hRest
  intro limits path v hValue
  rcases Value.ofJsonAt_array_iff.mp hValue with
    ⟨_, vs, hValues, _⟩
  exact hItems limits path 0 vs hValues

/- Objects are rejected with any of their members. -/
theorem rejected_object
    {key : String}
    {json : Json}
    {members : List (String × Json)}
    (hMember : (key, json) ∈ members)
    (hRejected : json.Rejected) :
    Rejected (.object members) := by
  have hMembers :
      ∀ limits path read ms,
        Value.ofJsonMembers limits path read members ≠
          .ok ms := by
    intro limits path
    induction members with
    | nil => cases hMember
    | cons first rest ih =>
        intro read ms hValues
        rw [Value.ofJsonMembers, bind_eq_ok_iff] at hValues
        rcases hValues with ⟨v, hFirst, hRest⟩
        rcases List.mem_cons.mp hMember with hSame | hLater
        · rw [← hSame] at hFirst
          exact hRejected _ _ _ hFirst
        · exact ih hLater _ _ hRest
  intro limits path v hValue
  rw [Value.ofJsonAt, check_eq_ok_iff, bind_eq_ok_iff]
    at hValue
  rcases hValue with ⟨_, ms, hValues, _⟩
  exact hMembers limits path [] ms hValues

end Json

end SignedMetadata
