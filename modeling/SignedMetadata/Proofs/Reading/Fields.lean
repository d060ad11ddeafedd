import SignedMetadata.Proofs.Members
import SignedMetadata.Proofs.Reading.Steps
import SignedMetadata.Signature.Reading

/-
  Reading an object one field at a time.

  A reader that goes through the members of an object reads
  each of its fields as if it passed over all other members.
  This holds of the reader of mappings, for which every key
  is a field, and of the readers of records.  So a record is
  read exactly if the mapping is read and its bindings have
  the form of what the fields hold.

  Main declarations:
    * `readField`
    * `ReadsAs`
    * `readField_of_readsAs`
    * `Value.ofMemberTrees_iff_readField`
    * `Value.ofTree_object_fields_iff`
    * `Value.ofTree_array_items_iff`
-/

namespace SignedMetadata

open Fallible

open Json (Tree)

variable {α : Type}
variable {read : Tree → Except ReadError α}
variable {name key : String}
variable {earlier found : Option α}
variable {tree : Tree}
variable {rest members : List (String × Tree)}

------------------------------------------------------------
-- Steps
------------------------------------------------------------

/- A field is read if it was not read before. -/
theorem readOnce_eq_ok_iff
    {reading : Except ReadError α} :
    readOnce name earlier reading = .ok found ↔
      earlier = none ∧ ∃ a, reading = .ok a ∧
        some a = found := by
  cases earlier with
  | some a => simp [readOnce]
  | none => cases reading <;> simp [readOnce, Except.map]

/- A field that must be there was read. -/
theorem required_eq_ok_iff
    {a : α} :
    required name found = .ok a ↔ found = some a := by
  cases found <;> simp [required]

/- An element is read if it is there. -/
theorem readElement_eq_ok_iff
    {expected : String}
    {closed : Bool}
    {position : Nat}
    {items : List Tree}
    {a : α} :
    readElement expected closed position read items =
        .ok a ↔
      ∃ tree, items[position]? = some tree ∧
        read tree = .ok a := by
  unfold readElement
  cases items[position]? with
  | some tree => simp
  | none => cases closed <;> simp

/- What is rejected is not read. -/
theorem reject_ne_ok
    {wide : Found}
    {expected : String}
    {a : α} :
    tree.reject wide expected ≠ Except.ok a := by
  unfold Tree.reject
  cases tree.found? wide <;> simp

------------------------------------------------------------
-- One Field
------------------------------------------------------------

/-
  What one field was before, or is read as from the members
  of an object.  All other members are passed over.
-/
def readField
    (name : String)
    (read : Tree → Except ReadError α)
    (earlier : Option α) :
    List (String × Tree) → Except ReadError (Option α)
| [] => .ok earlier
| (key, tree) :: rest =>
    if key = name then do
      let found ← readOnce name earlier (read tree)
      readField name read found rest
    else
      readField name read earlier rest

/- A member with the name of the field is read once. -/
theorem readField_cons_self :
    readField name read earlier ((name, tree) :: rest) =
        .ok found ↔
      ∃ next, readOnce name earlier (read tree) = .ok next ∧
        readField name read next rest = .ok found := by
  rw [readField, if_pos rfl, bind_eq_ok_iff]

/- Any other member is passed over. -/
theorem readField_cons_of_ne (hOther : key ≠ name) :
    readField name read earlier ((key, tree) :: rest) =
      readField name read earlier rest := by
  rw [readField, if_neg hOther]

/- A field that was read before must not come again. -/
theorem readField_some_iff
    {a : α} :
    readField name read (some a) members = .ok found ↔
      name ∉ Members.keys members ∧ some a = found := by
  induction members with
  | nil => simp [readField]
  | cons member rest ih =>
      rcases member with ⟨key, tree⟩
      rw [Members.keys_cons, List.mem_cons]
      by_cases hName : key = name
      · subst hName
        simp [readField_cons_self, readOnce_eq_ok_iff]
      · rw [readField_cons_of_ne hName, ih]
        simp [Ne.symm hName]

/- A member with its name is read if no other follows. -/
theorem readField_none_cons_iff :
    readField name read none ((name, tree) :: rest) =
        .ok found ↔
      name ∉ Members.keys rest ∧
        ∃ a, read tree = .ok a ∧ some a = found := by
  simp only [readField_cons_self, readOnce_eq_ok_iff,
    true_and]
  constructor
  · rintro ⟨_, ⟨a, hRead, rfl⟩, hRest⟩
    rcases readField_some_iff.mp hRest with ⟨hNew, hFound⟩
    exact ⟨hNew, a, hRead, hFound⟩
  · rintro ⟨hNew, a, hRead, hFound⟩
    exact
      ⟨_, ⟨a, hRead, rfl⟩,
        readField_some_iff.mpr ⟨hNew, hFound⟩⟩

/- A field is absent exactly if no member has its name. -/
theorem readField_eq_none_iff :
    readField name read none members = .ok none ↔
      name ∉ Members.keys members := by
  induction members with
  | nil => simp [readField]
  | cons member rest ih =>
      rcases member with ⟨key, tree⟩
      rw [Members.keys_cons, List.mem_cons]
      by_cases hName : key = name
      · subst hName
        simp [readField_none_cons_iff]
      · rw [readField_cons_of_ne hName, ih]
        simp [Ne.symm hName]

------------------------------------------------------------
-- Forms of Values
------------------------------------------------------------

/- Only the tree of an object is read as a mapping. -/
theorem Value.exists_object_of_ofTree
    {ms : Members Value}
    (hValue : Value.ofTree tree = .ok (.mapping ms)) :
    ∃ members closed, tree = .object members closed := by
  cases tree with
  | object members closed => exact ⟨members, closed, rfl⟩
  | number literal => simp [ofTree_number_iff] at hValue
  | array items closed => simp [ofTree_array_iff] at hValue
  | _ => cases hValue

/- Only the tree of an array is read as a sequence. -/
theorem Value.exists_array_of_ofTree
    {vs : List Value}
    (hValue : Value.ofTree tree = .ok (.sequence vs)) :
    ∃ items closed, tree = .array items closed := by
  cases tree with
  | array items closed => exact ⟨items, closed, rfl⟩
  | number literal => simp [ofTree_number_iff] at hValue
  | object members closed =>
      simp [ofTree_object_iff] at hValue
  | _ => cases hValue

/-
  A reader has the results whose form the value of the tree
  has, and fails on every tree without a value.
-/
def ReadsAs
    (read : Tree → Except ReadError α)
    (Form : α → Value → Prop) : Prop :=
  ∀ tree a,
    read tree = .ok a ↔
      ∃ v, Value.ofTree tree = .ok v ∧ Form a v

/- A text is read exactly if its value has such a form. -/
theorem ofDocument_of_readsAs
    {Form : α → Value → Prop}
    (hReads : ReadsAs read Form)
    {text : String}
    {a : α} :
    (do
        let document := Json.Document.ofText text
        let result ← read document.root
        Json.whenClosed (!document.trailing) result) =
          .ok a ↔
      ∃ v, Value.ofText text = .ok v ∧ Form a v := by
  rw [Json.ofDocument_eq_ok_iff read, hReads]
  simp only [Value.ofText_eq_ok_iff, and_assoc,
    exists_and_left]

/- The reader of a field agrees on its form, if it is there. -/
theorem readField_of_readsAs
    {Form : α → Value → Prop}
    (hReads : ReadsAs read Form)
    {a : α} :
    readField name read none members = .ok (some a) ↔
      ∃ v,
        readField name Value.ofTree none members =
            .ok (some v) ∧
          Form a v := by
  induction members with
  | nil => simp [readField]
  | cons member rest ih =>
      rcases member with ⟨key, tree⟩
      by_cases hName : key = name
      · subst hName
        simp only [readField_none_cons_iff, hReads tree,
          Option.some.injEq]
        constructor
        · rintro ⟨hNew, _, ⟨v, hValue, hForm⟩, rfl⟩
          exact ⟨v, ⟨hNew, v, hValue, rfl⟩, hForm⟩
        · rintro ⟨_, ⟨hNew, v, hValue, rfl⟩, hForm⟩
          exact ⟨hNew, a, ⟨v, hValue, hForm⟩, rfl⟩
      · simp only [readField_cons_of_ne hName, ih]

------------------------------------------------------------
-- Mappings
------------------------------------------------------------

namespace Value

/- Members are read as what each key is read as by itself. -/
theorem ofMemberTrees_iff_readField
    {before ms : Members Value}
    (hBefore : Members.Ascending before)
    (hAscending : Members.Ascending ms) :
    ofMemberTrees before members = .ok ms ↔
      ∀ name,
        readField name ofTree (before.find? name) members =
          .ok (ms.find? name) := by
  induction members generalizing before with
  | nil =>
      simp only [ofMemberTrees, readField, Except.ok.injEq]
      constructor
      · rintro rfl name
        rfl
      · exact Members.eq_of_find?_eq hBefore hAscending
  | cons member rest ih =>
      rcases member with ⟨key, tree⟩
      rw [ofMemberTrees_cons_iff, Members.contains_iff,
        ← Members.find?_eq_none_iff]
      constructor
      · rintro ⟨v, hValue, hNew, hRest⟩ name
        have hNames :=
          (ih (Members.ascending_insert hBefore)).mp hRest
            name
        by_cases hName : key = name
        · subst hName
          rw [Members.find?_insert_self] at hNames
          apply readField_cons_self.mpr
          refine ⟨some v, ?_, hNames⟩
          exact
            readOnce_eq_ok_iff.mpr ⟨hNew, v, hValue, rfl⟩
        · rw [Members.find?_insert_of_ne _ _
            (Ne.symm hName)] at hNames
          rw [readField_cons_of_ne hName]
          exact hNames
      · intro hNames
        rcases readField_cons_self.mp (hNames key) with
          ⟨_, hOnce, hRest⟩
        rcases readOnce_eq_ok_iff.mp hOnce with
          ⟨hNew, v, hValue, rfl⟩
        refine ⟨v, hValue, hNew, ?_⟩
        apply (ih (Members.ascending_insert hBefore)).mpr
        intro name
        by_cases hName : key = name
        · subst hName
          rw [Members.find?_insert_self]
          exact hRest
        · rw [Members.find?_insert_of_ne _ _
            (Ne.symm hName),
            ← readField_cons_of_ne hName]
          exact hNames name

/-
  Members are read as given bindings exactly if each of these
  is read as a field and there are no others.
-/
theorem ofMemberTrees_fields_iff
    {fields : Members Value}
    (hAscending : Members.Ascending fields) :
    ofMemberTrees [] members = .ok fields ↔
      (∀ k ∈ Members.keys members,
        k ∈ Members.keys fields) ∧
        ∀ m ∈ fields,
          readField m.1 ofTree none members =
            .ok (some m.2) := by
  have hNodup := Members.nodup_keys_of_ascending hAscending
  rw [ofMemberTrees_iff_readField Members.ascending_nil
    hAscending]
  constructor
  · intro hNames
    constructor
    · intro k hk
      by_contra hOther
      have hNone := hNames k
      rw [Members.find?_eq_none_iff.mpr hOther] at hNone
      exact readField_eq_none_iff.mp hNone hk
    · intro m hm
      rw [← (Members.mem_iff_find? hNodup).mp hm]
      exact hNames m.1
  · rintro ⟨hKeys, hFields⟩ name
    by_cases hName : name ∈ Members.keys fields
    · rcases List.mem_map.mp hName with ⟨m, hm, rfl⟩
      rw [(Members.mem_iff_find? hNodup).mp hm]
      exact hFields m hm
    · rw [Members.find?_eq_none_iff.mpr hName]
      apply readField_eq_none_iff.mpr
      intro hMember
      exact hName (hKeys name hMember)

/-
  An object is read as the mapping of given bindings, none of
  which is under `literalKey`, exactly if its fields are.
-/
theorem ofTree_object_fields_iff
    {closed : Bool}
    {fields : Members Value}
    (hAscending : Members.Ascending fields)
    (hLiteral : literalKey ∉ Members.keys fields) :
    ofTree (.object members closed) =
        .ok (.mapping fields) ↔
      closed = true ∧
        (∀ k ∈ Members.keys members,
          k ∈ Members.keys fields) ∧
        ∀ m ∈ fields,
          readField m.1 ofTree none members =
            .ok (some m.2) := by
  rw [← ofMemberTrees_fields_iff hAscending,
    ofTree_object_iff]
  constructor
  · rintro ⟨_, ms, hMs, hClosed, hFields⟩
    cases hFields
    exact ⟨hClosed, hMs⟩
  · rintro ⟨hClosed, hMs⟩
    refine ⟨?_, fields, hMs, hClosed, rfl⟩
    have hKeys :=
      ((ofMemberTrees_fields_iff hAscending).mp hMs).1
    cases members with
    | nil => exact Option.not_mem_none _
    | cons member rest =>
        rw [Json.passesLiteral_cons]
        intro hKey
        apply hLiteral
        rw [← hKey]
        exact hKeys member.1 List.mem_cons_self

------------------------------------------------------------
-- Sequences
------------------------------------------------------------

/- An array is read as the sequence of what it holds. -/
theorem ofTree_array_items_iff
    {closed : Bool}
    {items : List Tree}
    {vs : List Value} :
    ofTree (.array items closed) = .ok (.sequence vs) ↔
      closed = true ∧
        List.Forall₂ (fun tree v => ofTree tree = .ok v)
          items vs := by
  have hItems :
      ofTrees items = .ok vs ↔
        List.Forall₂ (fun tree v => ofTree tree = .ok v)
          items vs := by
    induction items generalizing vs with
    | nil => simp [ofTrees, eq_comm]
    | cons tree trees ih =>
        rw [ofTrees_cons_iff, List.forall₂_cons_left_iff]
        simp only [ih]
        constructor
        · rintro ⟨v, hHead, vs, hTail, hVs⟩
          exact ⟨v, vs, hHead, hTail, hVs.symm⟩
        · rintro ⟨v, vs, hHead, hTail, hVs⟩
          exact ⟨v, hHead, vs, hTail, hVs.symm⟩
  rw [ofTree_array_iff, ← hItems]
  constructor
  · rintro ⟨ws, hWs, hClosed, hVs⟩
    cases hVs
    exact ⟨hClosed, hWs⟩
  · rintro ⟨hClosed, hVs⟩
    exact ⟨vs, hVs, hClosed, rfl⟩

end Value

end SignedMetadata
