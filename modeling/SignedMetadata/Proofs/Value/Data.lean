import SignedMetadata.Datum
import SignedMetadata.Proofs.Json.Printing
import SignedMetadata.Proofs.Reading.Agreement

/-
  Values as JSON data.

  The tree of the data holds the value.  Members stand in the
  order of the value, so that the tree passes no literal if
  no mapping in the value has `literalKey` as its first key.

  Main declarations:
    * `holds_toJson`
    * `plain_toJson`
-/

namespace SignedMetadata

namespace Value

open Json (Tree itemTrees memberTrees)

mutual

/- The tree of the data of a value holds the value. -/
theorem holds_toJson (v : Value) :
    v.toJson.tree.Holds v := by
  cases v with
  | null => rfl
  | bool b => rfl
  | integer i => exact ⟨i, Json.numeral_ofInteger i, rfl⟩
  | string s => rfl
  | sequence items =>
      exact ⟨rfl, items, holds_toJsonItems items, rfl⟩
  | mapping members =>
      exact
        ⟨rfl, members, members, holds_toJsonMembers members,
          List.Perm.refl members, rfl⟩

/- The trees of the data of elements hold the elements. -/
theorem holds_toJsonItems (vs : List Value) :
    Tree.HoldsItems (itemTrees (toJsonItems vs)) vs := by
  cases vs with
  | nil => rfl
  | cons v vs =>
      exact
        ⟨v, vs, holds_toJson v, holds_toJsonItems vs, rfl⟩

/- The trees of the data of members hold the members. -/
theorem holds_toJsonMembers (ms : List (String × Value)) :
    Tree.HoldsMembers
      (memberTrees (toJsonMembers ms)) ms := by
  cases ms with
  | nil => rfl
  | cons m ms =>
      exact
        ⟨m.2, ms, holds_toJson m.2, holds_toJsonMembers ms,
          rfl⟩

end

mutual

/- A value without `literalKey` in front has a plain tree. -/
theorem plain_toJson
    (v : Value)
    (hFirst : v.NotFirst literalKey) :
    v.toJson.tree.Plain := by
  cases v with
  | sequence items => exact plain_toJsonItems items hFirst
  | mapping members =>
      have hMembers := plain_toJsonMembers members hFirst.2
      refine ⟨?_, hMembers⟩
      cases members with
      | nil => exact hFirst.1
      | cons m ms => exact hFirst.1
  | _ => exact trivial

/- Elements without it have plain trees. -/
theorem plain_toJsonItems
    (vs : List Value)
    (hFirst : NotFirstItems literalKey vs) :
    Tree.PlainItems (itemTrees (toJsonItems vs)) := by
  cases vs with
  | nil => exact trivial
  | cons v vs =>
      exact
        ⟨plain_toJson v hFirst.1,
          plain_toJsonItems vs hFirst.2⟩

/- Member values without it have plain trees. -/
theorem plain_toJsonMembers
    (ms : List (String × Value))
    (hFirst : NotFirstMembers literalKey ms) :
    Tree.PlainMembers (memberTrees (toJsonMembers ms)) := by
  cases ms with
  | nil => exact trivial
  | cons m ms =>
      exact
        ⟨plain_toJson m.2 hFirst.1,
          plain_toJsonMembers ms hFirst.2⟩

end

end Value

end SignedMetadata
