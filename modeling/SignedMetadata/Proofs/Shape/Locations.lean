import SignedMetadata.Proofs.Shape.Meaning

/-
  Where a value departs from a shape.

  The path of an error leads from the value that was checked
  to a place inside it, and what stands there, or the key it
  is stored under, is not as some part of the shape says.

  Main declarations:
    * `Value.At`
    * `Shape.Fault`
    * `Shape.Fault.mono`
    * `Shape.fault_of_checkAt`
-/

namespace SignedMetadata

open Fallible

------------------------------------------------------------
-- Places inside a Value
------------------------------------------------------------

/- The path leads from the first value to the second. -/
inductive Value.At : Value → Path → Value → Prop where
| here (v : Value) : At v [] v
| element
    {items : List Value} {position : Nat} {v w : Value}
    {path : Path} (hItem : items[position]? = some v)
    (hPath : At v path w) :
    At (.sequence items) (.index position :: path) w
| member
    {members : Members Value} {key : String} {v w : Value}
    {path : Path} (hMember : (key, v) ∈ members)
    (hPath : At v path w) :
    At (.mapping members) (.field key :: path) w

/- No path leads into a string. -/
theorem Value.at_string
    {s : String}
    {path : Path}
    {w : Value}
    (hPath : (Value.string s).At path w) :
    path = [] ∧ w = .string s := by
  cases hPath
  exact ⟨rfl, rfl⟩

namespace Shape

------------------------------------------------------------
-- Faults
------------------------------------------------------------

/-
  The error is right about the place: the mapping there lacks
  the field that the error names, or else the value there, or
  the key it is stored under, is not as a part of the shape
  says.
-/
def Fault
    (reads : Pattern → String → Prop)
    (shape : Shape)
    (v : Value)
    (place : Path)
    (e : ShapeError) : Prop :=
  ∃ w, v.At place w ∧
    match e with
    | .missingField _ _ field =>
        ∃ members, w = .mapping members ∧
          Members.find? members field = none
    | _ =>
        ∃ part, SubShape part shape ∧
          (¬ part.Describes reads w ∨
            ∃ above key, place = above ++ [.field key] ∧
              ¬ part.Describes reads (.string key))

variable {reads reads' : Pattern → String → Prop}
variable {shape part : Shape}
variable {v u : Value}
variable {path place : Path}
variable {e : ShapeError}

/- A fault stays one if patterns are read more narrowly. -/
theorem Fault.mono
    {v : Value}
    {place : Path}
    {e : ShapeError}
    (hFault : Fault reads shape v place e)
    (hReads :
      ∀ p, SubShape (.pattern p) shape →
        ∀ text, reads' p text → reads p text) :
    Fault reads' shape v place e := by
  have hWiden {part : Shape} {v : Value}
      (hPart : SubShape part shape)
      (hWrong : ¬ part.Describes reads v) :
      ¬ part.Describes reads' v := by
    intro hValue
    apply hWrong
    exact hValue.mono fun p hp => hReads p (hp.trans hPart)
  rcases hFault with ⟨w, hAt, hWrong⟩
  refine ⟨w, hAt, ?_⟩
  cases e with
  | missingField above object field => exact hWrong
  | _ =>
      rcases hWrong with
        ⟨t, ht, hValue | ⟨above, key, hPlace, hKey⟩⟩
      · exact ⟨t, ht, Or.inl (hWiden ht hValue)⟩
      · refine ⟨t, ht, Or.inr ⟨above, key, hPlace, ?_⟩⟩
        exact hWiden ht hKey

/- The error is about all of the value at the path. -/
structure About (path : Path) (e : ShapeError) : Prop where
  path_eq : e.path = path
  not_missing :
    ∀ above object field,
      e ≠ .missingField above object field

/- A mismatch is about the value at its path. -/
theorem about_mismatch
    (path : Path)
    (expected found : String) :
    About path (.mismatch path expected found) := by
  refine ⟨rfl, ?_⟩
  rintro above object field ⟨⟩

/- A fault lies in the value as a whole. -/
theorem fault_of_about
    (hCheck : shape.checkAt path v = .error e)
    (hAbout : About path e) :
    ∃ place, e.path = path ++ place ∧
      Fault Found shape v place e := by
  have hValue : ¬ shape.Describes Found v := by
    rw [← checkAt_eq_ok_iff shape path v, hCheck]
    rintro ⟨⟩
  refine ⟨[], ?_, v, .here v, ?_⟩
  · rw [hAbout.path_eq, List.append_nil]
  · cases e with
    | missingField above object field =>
        exact absurd rfl (hAbout.not_missing _ _ _)
    | _ => exact ⟨shape, .whole, Or.inl hValue⟩

/- A fault in a part is one in the whole. -/
theorem Fault.inside
    {steps : Path}
    (hFault : Fault reads part u place e)
    (hPlace : ∀ w, u.At place w → v.At (steps ++ place) w)
    (hPart : ∀ t, SubShape t part → SubShape t shape) :
    Fault reads shape v (steps ++ place) e := by
  rcases hFault with ⟨w, hAt, hWrong⟩
  refine ⟨w, hPlace w hAt, ?_⟩
  cases e with
  | missingField above object field => exact hWrong
  | _ =>
      rcases hWrong with
        ⟨t, ht, hValue | ⟨above, key, rfl, hKey⟩⟩
      · exact ⟨t, hPart t ht, Or.inl hValue⟩
      · refine ⟨t, hPart t ht, Or.inr ?_⟩
        refine ⟨steps ++ above, key, ?_, hKey⟩
        rw [List.append_assoc]

/- A fault in a key is one at the value stored under it. -/
theorem Fault.ofKey
    {key value : Shape}
    {members : Members Value}
    {m : String × Value}
    (hMember : m ∈ members)
    (hFault : Fault reads key (.string m.1) place e) :
    Fault reads (.dictOf key value) (.mapping members)
      (.field m.1 :: place) e := by
  rcases hFault with ⟨w, hAt, hWrong⟩
  rcases Value.at_string hAt with ⟨rfl, rfl⟩
  refine ⟨m.2, .member hMember (.here m.2), ?_⟩
  cases e with
  | missingField above object field =>
      rcases hWrong with ⟨_, hMapping, _⟩
      cases hMapping
  | _ =>
      rcases hWrong with ⟨t, ht, hKey | ⟨above, _, hNone, _⟩⟩
      · exact
          ⟨t, .key ht, Or.inr ⟨[], m.1, rfl, hKey⟩⟩
      · exact
          absurd hNone.symm (List.concat_ne_nil _ _)

------------------------------------------------------------
-- First Failures
------------------------------------------------------------

/- Some element has failed at its position. -/
theorem exists_of_eachItem
    {check : Path → Value → Except ShapeError Unit}
    {position : Nat}
    {items : List Value}
    (hItems : eachItem check path position items = .error e) :
    ∃ i w, items[i]? = some w ∧
      check (path.index (position + i)) w = .error e := by
  induction items generalizing position with
  | nil => cases hItems
  | cons v vs ih =>
      rw [eachItem, bind_eq_error_iff] at hItems
      rcases hItems with hHere | ⟨_, _, hRest⟩
      · exact ⟨0, v, rfl, hHere⟩
      · rcases ih hRest with ⟨i, w, hItem, hCheck⟩
        rw [Nat.add_assoc, Nat.add_comm 1] at hCheck
        exact ⟨i + 1, w, hItem, hCheck⟩

/- Some key or some value has failed below its key. -/
theorem exists_of_eachMember
    {checkKey check : Path → Value → Except ShapeError Unit}
    {members : List (String × Value)}
    (hMembers :
      eachMember checkKey check path members = .error e) :
    ∃ m ∈ members,
      checkKey (path.field m.1) (.string m.1) = .error e ∨
        check (path.field m.1) m.2 = .error e := by
  induction members with
  | nil => cases hMembers
  | cons m ms ih =>
      rw [eachMember, bind_eq_error_iff] at hMembers
      rcases hMembers with hKey | ⟨_, _, hMore⟩
      · exact ⟨m, List.mem_cons_self, Or.inl hKey⟩
      · rw [bind_eq_error_iff] at hMore
        rcases hMore with hValue | ⟨_, _, hRest⟩
        · exact ⟨m, List.mem_cons_self, Or.inr hValue⟩
        · rcases ih hRest with ⟨n, hn, hCheck⟩
          exact ⟨n, List.mem_cons_of_mem m hn, hCheck⟩

/- What is found under a key is a member. -/
theorem mem_of_find?
    {members : Members Value}
    {key : String}
    (hFind : members.find? key = some v) :
    (key, v) ∈ members := by
  rcases List.lookup_eq_some_iff.mp hFind with
    ⟨before, behind, rfl, _⟩
  exact List.mem_append_right before List.mem_cons_self

/- The first field fails, or else the fields behind it. -/
theorem checkFields_cons_eq_error
    {name field : String}
    {members : Members Value}
    {rest : List (String × Shape)}
    (hFields :
      checkFields path name members
          ((field, shape) :: rest) =
        .error e) :
    (∃ w, members.find? field = some w ∧
      shape.checkAt (path.field field) w = .error e) ∨
      (members.find? field = none ∧
        e = .missingField path name field) ∨
        checkFields path name members rest = .error e := by
  rw [checkFields] at hFields
  dsimp only at hFields
  cases hFind : members.find? field with
  | some w =>
      rw [hFind] at hFields
      dsimp only at hFields
      rw [bind_eq_error_iff] at hFields
      rcases hFields with hHere | ⟨_, _, hRest⟩
      · exact Or.inl ⟨w, rfl, hHere⟩
      · exact Or.inr (Or.inr hRest)
  | none =>
      rw [hFind] at hFields
      dsimp only at hFields
      split at hFields
      · cases hFields
        exact Or.inr (Or.inl ⟨rfl, rfl⟩)
      · exact Or.inr (Or.inr hFields)

/- A value of another kind is not a string. -/
theorem about_of_expectString
    {expected : String}
    (hString : expectString path expected v = .error e) :
    About path e := by
  cases v with
  | string s => cases hString
  | _ =>
      cases hString
      exact about_mismatch _ _ _

/- A value of another kind is not a mapping. -/
theorem about_of_expectMapping
    {expected : String}
    (hMapping : expectMapping path expected v = .error e) :
    About path e := by
  cases v with
  | mapping members => cases hMapping
  | _ =>
      cases hMapping
      exact about_mismatch _ _ _

/- A value of another kind is not a sequence. -/
theorem about_of_expectSequence
    {expected : String}
    (hSequence :
      expectSequence path expected v = .error e) :
    About path e := by
  cases v with
  | sequence items => cases hSequence
  | _ =>
      cases hSequence
      exact about_mismatch _ _ _

/- A value of another kind is no integer. -/
theorem about_of_checkInteger
    {least greatest : Int}
    (hInteger :
      checkInteger path least greatest v = .error e) :
    About path e := by
  cases v with
  | integer i =>
      rw [checkInteger] at hInteger
      split at hInteger
      · cases hInteger
      · cases hInteger
        exact about_mismatch _ _ _
  | _ =>
      cases hInteger
      exact about_mismatch _ _ _

------------------------------------------------------------
-- Checks
------------------------------------------------------------

mutual

/- The error of a check is right about its place. -/
theorem fault_of_checkAt
    (shape : Shape)
    (path : Path)
    (v : Value)
    {e : ShapeError}
    (hCheck : shape.checkAt path v = .error e) :
    ∃ place, e.path = path ++ place ∧
      Fault Found shape v place e := by
  have hHere := fault_of_about hCheck
  match shape with
  | .any => cases hCheck
  | .anyString =>
      rw [checkAt, bind_eq_error_iff] at hCheck
      rcases hCheck with hString | ⟨_, _, hNone⟩
      · exact hHere (about_of_expectString hString)
      · cases hNone
  | .exact text =>
      rw [checkAt, bind_eq_error_iff] at hCheck
      rcases hCheck with hString | ⟨s, _, hText⟩
      · exact hHere (about_of_expectString hString)
      · split at hText
        · cases hText
        · cases hText
          exact hHere (about_mismatch _ _ _)
  | .pattern p =>
      rw [checkAt, bind_eq_error_iff] at hCheck
      rcases hCheck with hString | ⟨s, _, hText⟩
      · exact hHere (about_of_expectString hString)
      · split at hText
        · cases hText
        · cases hText
          exact hHere (about_mismatch _ _ _)
  | .integer least greatest =>
      exact hHere (about_of_checkInteger hCheck)
  | .boolean =>
      cases v with
      | bool b => cases hCheck
      | _ =>
          cases hCheck
          exact hHere (about_mismatch _ _ _)
  | .listOf item least greatest =>
      rw [checkAt, bind_eq_error_iff] at hCheck
      rcases hCheck with hSequence | ⟨items, hItems, hEach⟩
      · exact hHere (about_of_expectSequence hSequence)
      · split at hEach
        · cases hEach
          exact hHere (about_mismatch _ _ _)
        · rcases exists_of_eachItem hEach with
            ⟨i, w, hItem, hFailed⟩
          rw [Nat.zero_add] at hFailed
          rcases fault_of_checkAt item _ w hFailed with
            ⟨place, hPath, hFault⟩
          rw [expectSequence_eq_ok_iff.mp hItems]
          refine ⟨[.index i] ++ place, ?_, ?_⟩
          · rw [hPath, Path.index, List.append_assoc]
          · apply hFault.inside
            · intro u hu
              exact .element hItem hu
            · intro t ht
              exact .item ht
  | .dictOf key value =>
      rw [checkAt, bind_eq_error_iff] at hCheck
      rcases hCheck with hMapping | ⟨members, hMembers, hEach⟩
      · exact hHere (about_of_expectMapping hMapping)
      · rw [expectMapping_eq_ok_iff.mp hMembers]
        rcases exists_of_eachMember hEach with
          ⟨m, hm, hKey | hValue⟩
        · rcases fault_of_checkAt key _ _ hKey with
            ⟨place, hPath, hFault⟩
          refine ⟨.field m.1 :: place, ?_, hFault.ofKey hm⟩
          rw [hPath, Path.field, List.append_assoc]
          rfl
        · rcases fault_of_checkAt value _ _ hValue with
            ⟨place, hPath, hFault⟩
          refine ⟨[.field m.1] ++ place, ?_, ?_⟩
          · rw [hPath, Path.field, List.append_assoc]
          · apply hFault.inside
            · intro u hu
              exact .member hm hu
            · intro t ht
              exact .value ht
  | .object name fields =>
      rw [checkAt, bind_eq_error_iff] at hCheck
      rcases hCheck with hMapping | ⟨members, hMembers, hEach⟩
      · exact hHere (about_of_expectMapping hMapping)
      · rw [expectMapping_eq_ok_iff.mp hMembers]
        exact
          fault_of_checkFields path members hEach fun _ hf => hf
  | .oneOf alternatives =>
      rw [checkAt] at hCheck
      split at hCheck
      · cases hCheck
      · cases hCheck
        apply hHere
        refine ⟨rfl, ?_⟩
        rintro above object field ⟨⟩
  | .optional shape =>
      rw [checkAt] at hCheck
      rcases fault_of_checkAt shape path v hCheck with
        ⟨place, hPath, hFault⟩
      refine ⟨[] ++ place, hPath, ?_⟩
      apply hFault.inside
      · exact fun _ hAt => hAt
      · exact fun _ hPart => .inner hPart

/- So is the error of a check of some fields of an object. -/
theorem fault_of_checkFields
    (path : Path)
    (members : Members Value)
    {name : String}
    {fields all : List (String × Shape)}
    {e : ShapeError}
    (hCheck :
      checkFields path name members fields = .error e)
    (hAll : ∀ f ∈ fields, f ∈ all) :
    ∃ place, e.path = path ++ place ∧
      Fault Found (.object name all) (.mapping members)
        place e := by
  match fields with
  | [] => cases hCheck
  | (field, shape) :: rest =>
      rw [List.forall_mem_cons] at hAll
      rcases checkFields_cons_eq_error hCheck with
        ⟨w, hFind, hFailed⟩ | ⟨hFind, rfl⟩ | hRest
      · rcases fault_of_checkAt shape _ w hFailed with
          ⟨place, hPath, hFault⟩
        refine ⟨[.field field] ++ place, ?_, ?_⟩
        · rw [hPath, Path.field, List.append_assoc]
        · apply hFault.inside
          · intro u hu
            exact .member (mem_of_find? hFind) hu
          · intro t ht
            exact .field hAll.1 ht
      · refine ⟨[], (List.append_nil path).symm, ?_⟩
        exact ⟨_, .here _, members, rfl, hFind⟩
      · exact fault_of_checkFields path members hRest hAll.2

end

end Shape

end SignedMetadata
