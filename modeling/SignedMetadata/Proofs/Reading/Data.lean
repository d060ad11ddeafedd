import SignedMetadata.Proofs.Reading.Agreement
import SignedMetadata.Proofs.Reading.Distinct
import SignedMetadata.Proofs.Reading.Literals
import SignedMetadata.Proofs.Value.Containers
import SignedMetadata.Reading.Data

/-
  Converting data and reading it as a value.

  Data is converted under a limit on its depth, or it is read
  member by member, with its numbers handed over in whatever
  form they fit.  On data that was read from a text without
  `literalKey` the two agree, as far as the limit leaves room
  for the text: the data has ascending keys, none of them
  passes a literal, and each form of a number says which
  integer it is.

  Main declarations:
    * `ofNumber_eq_ok_iff`
    * `Agrees`
    * `agrees_of_ofTree`
-/

namespace SignedMetadata

open Fallible

namespace Value

open Json (Tree)

------------------------------------------------------------
-- Numbers
------------------------------------------------------------

/- A literal of an integer in range is handed over as one. -/
theorem numberForm_of_inRange
    {literal : String}
    {i : Int}
    (hInteger : Text.integer? literal = some i)
    (hRange : InRange i) :
    Json.numberForm literal = .integer i := by
  have hWide :
      minInteger ≤ i ∧
        i ≤ 0xffffffffffffffffffffffffffffffff := by
    have hGreatest := hRange.2
    rw [maxInteger] at hGreatest
    exact ⟨hRange.1, by omega⟩
  have hFilter :
      (some i).filter
          (fun i =>
            minInteger ≤ i ∧
              i ≤ 0xffffffffffffffffffffffffffffffff) =
        some i :=
    Option.filter_some_pos (decide_eq_true hWide)
  rw [Json.numberForm, hInteger, hFilter]

/- An integer that is handed over is that of the literal. -/
theorem integer?_of_numberForm
    {literal : String}
    {i : Int}
    (hForm : Json.numberForm literal = .integer i) :
    Text.integer? literal = some i := by
  unfold Json.numberForm at hForm
  split at hForm
  · rename_i j hInteger
    cases hForm
    exact (Option.filter_eq_some_iff.mp hInteger).1
  · split at hForm <;> cases hForm

/- A literal that is handed over is the one that is read. -/
theorem eq_of_numberForm
    {literal text : String}
    (hForm : Json.numberForm literal = .literal text) :
    text = literal := by
  unfold Json.numberForm at hForm
  split at hForm
  · cases hForm
  · split at hForm
    · cases hForm
    · cases hForm
      rfl

/- A number is read as the integer of its literal. -/
theorem ofNumber_eq_ok_iff
    {literal : String}
    {v : Value} :
    ofNumber literal = .ok v ↔
      ∃ i, integerOfLiteral literal = .ok i ∧
        .integer i = v := by
  constructor
  · intro hNumber
    unfold ofNumber at hNumber
    cases hForm : Json.numberForm literal with
    | integer i =>
        simp only [hForm] at hNumber
        split_ifs at hNumber with hRange
        cases hNumber
        exact
          ⟨i, integerOfLiteral_eq_ok_iff.mpr
            ⟨integer?_of_numberForm hForm, hRange⟩, rfl⟩
    | float x =>
        simp only [hForm] at hNumber
        cases hNumber
    | literal text =>
        rw [hForm, eq_of_numberForm hForm] at hNumber
        simp only [ofLiteral] at hNumber
        split at hNumber
        · rename_i i hInteger
          cases hNumber
          exact ⟨i, hInteger, rfl⟩
        · cases hNumber
        · cases hNumber
  · rintro ⟨i, hInteger, rfl⟩
    rcases integerOfLiteral_eq_ok_iff.mp hInteger with
      ⟨hText, hRange⟩
    rw [ofNumber, numberForm_of_inRange hText hRange]
    exact if_pos hRange

------------------------------------------------------------
-- Reading Data
------------------------------------------------------------

/- An array is read as the sequence of its elements. -/
theorem readJson_array_iff
    {items : List Json}
    {v : Value} :
    readJson (.array items) = .ok v ↔
      ∃ vs, readJsonItems items = .ok vs ∧
        .sequence vs = v := by
  simp only [readJson, bind_eq_ok_iff, return_eq_ok_iff]

/- Elements are read one by one. -/
theorem readJsonItems_cons_iff
    {json : Json}
    {jsons : List Json}
    {vs : List Value} :
    readJsonItems (json :: jsons) = .ok vs ↔
      ∃ first, readJson json = .ok first ∧
        ∃ rest, readJsonItems jsons = .ok rest ∧
          first :: rest = vs := by
  simp only [readJsonItems, bind_eq_ok_iff,
    return_eq_ok_iff]

/- A member is read and bound to a new key. -/
theorem readJsonMembers_cons_iff
    {read ms : Members Value}
    {m : String × Json}
    {rest : List (String × Json)} :
    readJsonMembers read (m :: rest) = .ok ms ↔
      ∃ v, readJson m.2 = .ok v ∧
        ¬ Members.contains read m.1 = true ∧
          readJsonMembers (Members.insert m.1 v read) rest =
            .ok ms := by
  simp only [readJsonMembers, bind_eq_ok_iff,
    guard_eq_ok_iff]

/-
  Members with ascending keys, all greater than the keys read
  before, are read behind these.
-/
theorem readJsonMembers_iff
    (read ms : Members Value)
    {members : Members Json}
    (hAscending :
      (Members.keys read ++ Members.keys members).Pairwise
        (· < ·)) :
    readJsonMembers read members = .ok ms ↔
      ∃ rest,
        Members.Paired
            (fun _ json v => readJson json = .ok v)
            members rest ∧
          read ++ rest = ms := by
  apply Members.appends_iff _ _ read ms hAscending
  · intro before
    rfl
  · intro before m rest ns hNew
    rw [readJsonMembers_cons_iff, Members.contains_iff]
    simp only [hNew, not_false_eq_true, true_and]

/-
  An object that passes no literal is read as the mapping of
  its members.
-/
theorem readJson_object_iff
    {members : Members Json}
    {v : Value}
    (hAscending : Members.Ascending members)
    (hPlain : ∀ m ∈ members, m.1 ≠ literalKey) :
    readJson (.object members) = .ok v ↔
      ∃ ms,
        Members.Paired
            (fun _ json v => readJson json = .ok v)
            members ms ∧
          .mapping ms = v := by
  have hMembers :
      ∀ ms,
        readJsonMembers [] members = .ok ms ↔
          Members.Paired
            (fun _ json v => readJson json = .ok v)
            members ms := by
    intro ms
    simpa using readJsonMembers_iff [] ms hAscending
  simp only [← hMembers]
  cases members with
  | nil => simp [readJson, readJsonMembers]
  | cons m rest =>
      rcases m with ⟨key, json⟩
      have hKey : key ≠ literalKey :=
        hPlain (key, json) List.mem_cons_self
      have hNew :
          ¬ Members.contains ([] : Members Value) key =
            true :=
        Bool.false_ne_true
      simp only [readJson, if_neg hKey, bind_eq_ok_iff,
        return_eq_ok_iff, readJsonMembers_cons_iff,
        Members.insert]
      constructor
      · rintro ⟨first, hFirst, ms, hRest, rfl⟩
        exact ⟨ms, ⟨first, hFirst, hNew, hRest⟩, rfl⟩
      · rintro ⟨ms, ⟨first, hFirst, _, hRest⟩, rfl⟩
        exact ⟨first, hFirst, ms, hRest, rfl⟩

------------------------------------------------------------
-- Agreement
------------------------------------------------------------

/-
  Wherever the limit leaves room for so many containers, the
  data is converted to a value exactly if it is read as it.
-/
def Agrees (depth : Nat) (json : Json) : Prop :=
  ∀ limits path v,
    path.length + depth ≤ limits.maxDepth →
      (ofJsonAt limits path json = .ok v ↔
        readJson json = .ok v)

variable {n : Nat}
variable {json : Json}
variable {items : List Json}
variable {members : Members Json}

/- Data that is converted and read alike is in agreement. -/
theorem agrees_of_ok
    {v : Value}
    (hConverted :
      ∀ limits path, ofJsonAt limits path json = .ok v)
    (hRead : readJson json = .ok v) :
    Agrees n json := by
  intro limits path w _
  rw [hConverted, hRead, Except.ok.injEq, Except.ok.injEq]

/- There is agreement where there is more room, too. -/
theorem Agrees.mono
    {m : Nat}
    (hAgrees : Agrees n json)
    (hBound : n ≤ m) :
    Agrees m json := by
  intro limits path v hRoom
  exact hAgrees limits path v (by omega)

/- Elements with agreement agree at every position. -/
theorem agrees_items
    (hItems : ∀ json ∈ items, Agrees n json)
    {limits : Limits}
    {path : Path}
    (hRoom : path.length + (1 + n) ≤ limits.maxDepth)
    (position : Nat)
    (vs : List Value) :
    ofJsonItems limits path position items = .ok vs ↔
      readJsonItems items = .ok vs := by
  induction items generalizing position vs with
  | nil =>
      rw [ofJsonItems, readJsonItems, Except.ok.injEq,
        Except.ok.injEq]
  | cons json jsons ih =>
      have hHead :
          ∀ v,
            ofJsonAt limits (path.index position) json =
                .ok v ↔
              readJson json = .ok v := by
        intro v
        apply hItems json List.mem_cons_self
        rw [length_index]
        omega
      have hTail :=
        ih
          (fun item hItem =>
            hItems item (List.mem_cons_of_mem json hItem))
          (position + 1)
      rw [ofJsonItems_cons_iff, readJsonItems_cons_iff]
      simp only [hHead, hTail]

/- An array of elements with agreement has it, too. -/
theorem agrees_array
    (hItems : ∀ json ∈ items, Agrees n json) :
    Agrees (1 + n) (.array items) := by
  intro limits path v hRoom
  have hPath : path.length < limits.maxDepth := by omega
  rw [ofJsonAt_array_iff, readJson_array_iff]
  simp only [agrees_items hItems hRoom, hPath, true_and]

/-
  An object of ascending members with agreement has it, too,
  if it passes no literal.
-/
theorem agrees_object
    (hAscending : Members.Ascending members)
    (hMembers :
      ∀ m ∈ members, m.1 ≠ literalKey ∧ Agrees n m.2) :
    Agrees (1 + n) (.object members) := by
  intro limits path v hRoom
  have hPath : path.length < limits.maxDepth := by omega
  have hPaired :
      ∀ ms,
        Converts limits path members ms ↔
          Members.Paired
            (fun _ json v => readJson json = .ok v)
            members ms := by
    intro ms
    apply Members.Paired.congr
    intro m hm v
    apply (hMembers m hm).2
    rw [length_field]
    omega
  rw [ofJsonAt_object_iff hAscending,
    readJson_object_iff hAscending
      fun m hm => (hMembers m hm).1]
  simp only [hPaired, hPath, true_and]

mutual

/- Data of a tree without `literalKey` is in agreement. -/
theorem agrees_of_ofTree
    (tree : Tree)
    {json : Json}
    (hAvoids : tree.Avoids literalKey)
    (hJson : Json.ofTree tree = .ok json) :
    Agrees tree.depth json := by
  cases tree with
  | null =>
      cases hJson
      exact agrees_of_ok (fun _ _ => rfl) rfl
  | bool b =>
      cases hJson
      exact agrees_of_ok (fun _ _ => rfl) rfl
  | number literal =>
      cases hJson
      intro limits path v _
      rw [ofJsonAt_number_iff, readJson, ofNumber_eq_ok_iff]
  | string text =>
      cases hJson
      exact agrees_of_ok (fun _ _ => rfl) rfl
  | array items closed =>
      rcases Json.ofTree_array_iff.mp hJson with
        ⟨jsons, hJsons, _, rfl⟩
      exact
        agrees_array (agrees_of_ofTrees items hAvoids hJsons)
  | object members closed =>
      have hPlain : ¬ Json.PassesLiteral members :=
        Json.not_passesLiteral_of_avoids hAvoids
      rcases (Json.ofTree_object_iff hPlain).mp hJson with
        ⟨jsons, hJsons, _, rfl⟩
      have hAscending :=
        Json.ascending_ofMembers Members.ascending_nil hJsons
      exact
        agrees_object hAscending
          (agrees_of_ofMembers members hAvoids
            (Nat.le_refl (Tree.depthMembers members))
            (fun m hm => absurd hm List.not_mem_nil) hJsons)
  | broken => cases hJson

/- Data of elements without it is in agreement. -/
theorem agrees_of_ofTrees
    (trees : List Tree)
    {jsons : List Json}
    (hAvoids : Tree.AvoidsItems literalKey trees)
    (hJsons : Json.ofTrees trees = .ok jsons) :
    ∀ json ∈ jsons, Agrees (Tree.depthItems trees) json := by
  cases trees with
  | nil =>
      cases hJsons
      intro json hMember
      exact absurd hMember List.not_mem_nil
  | cons tree trees =>
      rcases Json.ofTrees_cons_iff.mp hJsons with
        ⟨first, hFirst, rest, hRest, rfl⟩
      have hHead :=
        agrees_of_ofTree tree hAvoids.1 hFirst
      have hTail :=
        agrees_of_ofTrees trees hAvoids.2 hRest
      rw [Tree.depthItems]
      intro json hMember
      rcases List.mem_cons.mp hMember with rfl | hMember
      · exact hHead.mono (Nat.le_max_left _ _)
      · exact
          (hTail json hMember).mono (Nat.le_max_right _ _)

/- Data of members without it, behind such members. -/
theorem agrees_of_ofMembers
    (members : List (String × Tree))
    {n : Nat}
    {read jsons : Members Json}
    (hAvoids : Tree.AvoidsMembers literalKey members)
    (hDepth : Tree.depthMembers members ≤ n)
    (hRead : ∀ m ∈ read, m.1 ≠ literalKey ∧ Agrees n m.2)
    (hJsons : Json.ofMembers read members = .ok jsons) :
    ∀ m ∈ jsons, m.1 ≠ literalKey ∧ Agrees n m.2 := by
  cases members with
  | nil =>
      cases hJsons
      exact hRead
  | cons member rest =>
      rcases member with ⟨key, tree⟩
      rcases Json.ofMembers_cons_iff.mp hJsons with
        ⟨json, hJson, hRest⟩
      rcases hAvoids with ⟨hKey, hTree, hAvoids⟩
      rw [Tree.depthMembers] at hDepth
      have hHead : Agrees n json :=
        (agrees_of_ofTree tree hTree hJson).mono (by omega)
      exact
        agrees_of_ofMembers rest hAvoids (by omega)
          (Members.forall_mem_insert hRead ⟨hKey, hHead⟩)
          hRest

end

end Value

end SignedMetadata
