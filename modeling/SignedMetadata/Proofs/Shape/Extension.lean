import Mathlib.Logic.Relation
import SignedMetadata.Proofs.Members
import SignedMetadata.Proofs.Role

/-
  Metadata with more members keeps its shape.

  An object is free to have members that its shape does not
  name.  `Shape.Adds` adds one of them to some mapping inside
  a value, wherever the shape reaches an object: below
  elements, below values of dictionaries, below fields, and
  below an alternative that the value has.  If no object of
  the shape names a field twice, the value keeps the shape,
  and so it does after any number of additions.  Shapes of the
  catalog name no field twice.

  Main declarations:
    * `Shape.DistinctFields`
    * `Shape.Adds`
    * `Shape.Adds.describes`
    * `Shape.accepts_of_additions`
-/

namespace SignedMetadata

namespace Shape

------------------------------------------------------------
-- Distinct Fields
------------------------------------------------------------

/- No object in the shape names a field twice. -/
def DistinctFields (shape : Shape) : Prop :=
  ∀ name fields, SubShape (.object name fields) shape →
    (fields.map Prod.fst).Nodup

variable {part shape : Shape}

/- A part of such a shape is one, too. -/
theorem DistinctFields.of_subShape
    (hDistinct : shape.DistinctFields)
    (hPart : SubShape part shape) :
    part.DistinctFields := by
  intro name fields hObject
  exact hDistinct name fields (hObject.trans hPart)

mutual

/- This is computed from the parts of a shape. -/
def hasDistinctFields : Shape → Bool
| .listOf item _ _ => hasDistinctFields item
| .dictOf key value =>
    hasDistinctFields key && hasDistinctFields value
| .object _ fields =>
    decide (fields.map Prod.fst).Nodup &&
      fieldsHaveDistinctFields fields
| .oneOf alternatives => allHaveDistinctFields alternatives
| .optional shape => hasDistinctFields shape
| _ => true

/- It is computed for the shapes of all fields. -/
def fieldsHaveDistinctFields :
    List (String × Shape) → Bool
| [] => true
| (_, shape) :: rest =>
    hasDistinctFields shape && fieldsHaveDistinctFields rest

/- It is computed for all alternatives. -/
def allHaveDistinctFields : List Shape → Bool
| [] => true
| shape :: shapes =>
    hasDistinctFields shape && allHaveDistinctFields shapes

end

/- Then it is computed for each of the fields. -/
theorem hasDistinctFields_of_mem_fields
    {fields : List (String × Shape)}
    {field : String × Shape}
    (hFields : fieldsHaveDistinctFields fields = true)
    (hField : field ∈ fields) :
    field.2.hasDistinctFields = true := by
  induction fields with
  | nil => cases hField
  | cons first rest ih =>
      rw [fieldsHaveDistinctFields, Bool.and_eq_true]
        at hFields
      rcases List.mem_cons.mp hField with rfl | hRest
      · exact hFields.1
      · exact ih hFields.2 hRest

/- Then it is computed for each of the alternatives. -/
theorem hasDistinctFields_of_mem
    {shapes : List Shape}
    (hShapes : allHaveDistinctFields shapes = true)
    (hShape : shape ∈ shapes) :
    shape.hasDistinctFields = true := by
  induction shapes with
  | nil => cases hShape
  | cons first rest ih =>
      rw [allHaveDistinctFields, Bool.and_eq_true] at hShapes
      rcases List.mem_cons.mp hShape with rfl | hRest
      · exact hShapes.1
      · exact ih hShapes.2 hRest

/- What is computed for a shape is true of it. -/
theorem distinctFields_of_hasDistinctFields
    (hShape : shape.hasDistinctFields = true) :
    shape.DistinctFields := by
  intro name fields hObject
  induction hObject with
  | whole =>
      rw [hasDistinctFields, Bool.and_eq_true,
        decide_eq_true_iff] at hShape
      exact hShape.1
  | item _ ih =>
      rw [hasDistinctFields] at hShape
      exact ih hShape
  | key _ ih =>
      rw [hasDistinctFields, Bool.and_eq_true] at hShape
      exact ih hShape.1
  | value _ ih =>
      rw [hasDistinctFields, Bool.and_eq_true] at hShape
      exact ih hShape.2
  | field hField _ ih =>
      rw [hasDistinctFields, Bool.and_eq_true] at hShape
      exact ih (hasDistinctFields_of_mem_fields hShape.2 hField)
  | alternative hMember _ ih =>
      rw [hasDistinctFields] at hShape
      exact ih (hasDistinctFields_of_mem hShape hMember)
  | inner _ ih =>
      rw [hasDistinctFields] at hShape
      exact ih hShape

/- No shape of the catalog names a field twice. -/
theorem distinctFields_of_mem_entries
    {entry : String × Shape}
    (hEntry : entry ∈ Catalog.entries) :
    entry.2.DistinctFields := by
  have hAll :
      ∀ entry ∈ Catalog.entries,
        entry.2.hasDistinctFields = true := by
    decide +kernel
  exact distinctFields_of_hasDistinctFields (hAll entry hEntry)

/- Neither does the shape of a role. -/
theorem distinctFields_role (role : Role) :
    role.shape.DistinctFields := by
  apply distinctFields_of_hasDistinctFields
  cases role <;> decide +kernel

------------------------------------------------------------
-- Additions
------------------------------------------------------------

/-
  One member is added to a mapping inside a value that the
  shape reaches as an object, under a key that the object
  does not name and the mapping does not have.
-/
inductive Adds : Shape → Value → Value → Prop
| member
    {name : String} {fields : List (String × Shape)}
    {members : Members Value} {key : String}
    (hFree : key ∉ fields.map Prod.fst)
    (hNew : key ∉ members.keys)
    (added : Value) :
    Adds (.object name fields) (.mapping members)
      (.mapping (members.insert key added))
| field
    {name : String} {fields : List (String × Shape)}
    {field : String × Shape} {members : Members Value}
    {v w : Value} (hField : field ∈ fields)
    (hFind : members.find? field.1 = some v)
    (hAdds : Adds field.2 v w) :
    Adds (.object name fields) (.mapping members)
      (.mapping (members.insert field.1 w))
| item
    {item : Shape} {least greatest : Nat}
    {before behind : List Value} {v w : Value}
    (hAdds : Adds item v w) :
    Adds (.listOf item least greatest)
      (.sequence (before ++ v :: behind))
      (.sequence (before ++ w :: behind))
| value
    {key value : Shape} {before behind : Members Value}
    {k : String} {v w : Value} (hAdds : Adds value v w) :
    Adds (.dictOf key value)
      (.mapping (before ++ (k, v) :: behind))
      (.mapping (before ++ (k, w) :: behind))
| alternative
    {alternatives : List Shape} {alternative : Shape}
    {v w : Value} (hMember : alternative ∈ alternatives)
    (hValue : alternative.accepts v = true)
    (hAdds : Adds alternative v w) :
    Adds (.oneOf alternatives) v w
| inner
    {shape : Shape} {v w : Value} (hAdds : Adds shape v w) :
    Adds (.optional shape) v w

variable {v w : Value}

/- A value is accepted exactly if the shape describes it. -/
theorem accepts_iff_describes :
    shape.accepts v = true ↔ shape.Describes Found v := by
  rw [accepts, isOk_iff]
  exact checkAt_eq_ok_iff shape Path.root v

/- Unnamed members are free. -/
theorem describes_insert_free
    {name key : String}
    {fields : List (String × Shape)}
    {members : Members Value}
    (hObject :
      (Shape.object name fields).Describes Found
        (.mapping members))
    (hFree : key ∉ fields.map Prod.fst)
    (added : Value) :
    (Shape.object name fields).Describes Found
      (.mapping (members.insert key added)) := by
  have hSame :
      ∀ f ∈ fields,
        (members.insert key added).find? f.1 =
          members.find? f.1 := by
    intro f hf
    apply Members.find?_insert_of_ne
    rintro rfl
    exact hFree (List.mem_map_of_mem hf)
  cases hObject with
  | @object _ _ _ hFields hRequired =>
      apply Describes.object
      · intro f hf u hFind
        rw [hSame f hf] at hFind
        exact hFields f hf u hFind
      · intro f hf hFind
        rw [hSame f hf] at hFind
        exact hRequired f hf hFind

/- A field may be bound to another value of its shape. -/
theorem describes_insert_field
    {name : String}
    {fields : List (String × Shape)}
    {field : String × Shape}
    {members : Members Value}
    (hObject :
      (Shape.object name fields).Describes Found
        (.mapping members))
    (hNodup : (fields.map Prod.fst).Nodup)
    (hField : field ∈ fields)
    (hValue : field.2.Describes Found w) :
    (Shape.object name fields).Describes Found
      (.mapping (members.insert field.1 w)) := by
  cases hObject with
  | @object _ _ _ hFields hRequired =>
      apply Describes.object
      · intro f hf u hFind
        by_cases hName : f.1 = field.1
        · have hEq : f = field :=
            List.inj_on_of_nodup_map hNodup hf hField hName
          rw [hName, Members.find?_insert_self,
            Option.some.injEq] at hFind
          rw [hEq, ← hFind]
          exact hValue
        · rw [Members.find?_insert_of_ne _ _ hName] at hFind
          exact hFields f hf u hFind
      · intro f hf hFind
        by_cases hName : f.1 = field.1
        · rw [hName, Members.find?_insert_self] at hFind
          cases hFind
        · rw [Members.find?_insert_of_ne _ _ hName] at hFind
          exact hRequired f hf hFind

/- What has the shape keeps it when a member is added. -/
theorem Adds.describes
    (hAdds : shape.Adds v w)
    (hDistinct : shape.DistinctFields)
    (hValue : shape.Describes Found v) :
    shape.Describes Found w := by
  induction hAdds with
  | member hFree _ added =>
      exact describes_insert_free hValue hFree added
  | @field name fields field members v w hField hFind _ ih =>
      have hBound : field.2.Describes Found v := by
        cases hValue with
        | object hFields _ => exact hFields field hField v hFind
      apply describes_insert_field hValue _ hField
      · exact
          ih (hDistinct.of_subShape (.field hField .whole))
            hBound
      · exact hDistinct name fields .whole
  | @item item least greatest before behind v w _ ih =>
      cases hValue with
      | listOf hLeast hGreatest hItems =>
          rw [List.forall_mem_append, List.forall_mem_cons]
            at hItems
          have hItem :=
            ih (hDistinct.of_subShape (.item .whole))
              hItems.2.1
          rw [List.length_append, List.length_cons]
            at hLeast hGreatest
          apply Describes.listOf
          · rwa [List.length_append, List.length_cons]
          · rwa [List.length_append, List.length_cons]
          · rw [List.forall_mem_append, List.forall_mem_cons]
            exact ⟨hItems.1, hItem, hItems.2.2⟩
  | @value key value before behind k v w _ ih =>
      cases hValue with
      | dictOf hKeys hValues =>
          rw [List.forall_mem_append, List.forall_mem_cons]
            at hKeys hValues
          have hBound :=
            ih (hDistinct.of_subShape (.value .whole))
              hValues.2.1
          apply Describes.dictOf
          · rw [List.forall_mem_append, List.forall_mem_cons]
            exact hKeys
          · rw [List.forall_mem_append, List.forall_mem_cons]
            exact ⟨hValues.1, hBound, hValues.2.2⟩
  | alternative hMember hAlternative _ ih =>
      apply Describes.oneOf hMember
      apply ih
      · exact
          hDistinct.of_subShape (.alternative hMember .whole)
      · exact accepts_iff_describes.mp hAlternative
  | inner _ ih =>
      cases hValue with
      | optional hInner =>
          apply Describes.optional
          exact
            ih (hDistinct.of_subShape (.inner .whole)) hInner

/- It keeps it however many members are added. -/
theorem describes_of_additions
    (hDistinct : shape.DistinctFields)
    (hValue : shape.Describes Found v)
    (hAdded : Relation.ReflTransGen shape.Adds v w) :
    shape.Describes Found w := by
  induction hAdded with
  | refl => exact hValue
  | tail _ hStep ih => exact hStep.describes hDistinct ih

/-
  A shape whose objects name no field twice accepts what it
  accepts with any number of members added, at any depth and
  under any keys that the objects do not name.  The shapes of
  the catalog are such shapes, and those of all roles.
-/
theorem accepts_of_additions :
    (∀ (shape : Shape) (v w : Value),
      shape.DistinctFields →
      shape.accepts v = true →
      Relation.ReflTransGen shape.Adds v w →
        shape.accepts w = true) ∧
      (∀ entry ∈ Catalog.entries, entry.2.DistinctFields) ∧
        ∀ role : Role, role.shape.DistinctFields := by
  refine
    ⟨?_, fun _ => distinctFields_of_mem_entries,
      distinctFields_role⟩
  intro shape v w hDistinct hValue hAdded
  rw [accepts_iff_describes] at hValue ⊢
  exact describes_of_additions hDistinct hValue hAdded

/- A delegated role, with further members. -/
def delegatedRole (more : Members Value) : Value :=
  .mapping
    ([("keyids", .sequence [])] ++ more ++
      [("threshold", .integer 1)])

/- A file, with further members. -/
def listedFile (more : Members Value) : Value :=
  .mapping
    ([("hashes", .mapping []), ("length", .integer 0)] ++
      more)

/- Targets of one file and one delegated role. -/
def delegatingTargets (role file : Value) : Value :=
  .mapping
    [("_type", .string "Targets"),
      ("delegations",
        .mapping
          [("keys", .mapping []),
            ("roles", .sequence [role])]),
      ("expires", .string "2030-01-01T00:00:00Z"),
      ("targets", .mapping [("a", file)]),
      ("version", .integer 1)]

/- Targets grow with their delegated role. -/
theorem adds_targets_of_role
    {role role' : Value}
    (file : Value)
    (hRole : Catalog.role.Adds role role') :
    Catalog.targets.Adds (delegatingTargets role file)
      (delegatingTargets role' file) := by
  have hRoles :
      Catalog.roleList.Adds (.sequence [role])
        (.sequence [role']) :=
    @Adds.item _ _ _ [] [] _ _ hRole
  have hDelegations :
      (Shape.optional Catalog.delegations).Adds
        (.mapping
          [("keys", .mapping []), ("roles", .sequence [role])])
        (.mapping
          [("keys", .mapping []),
            ("roles", .sequence [role'])]) :=
    .inner <|
      @Adds.field _ _ ("roles", Catalog.roleList) _ _ _
        (by simp) rfl hRoles
  exact
    @Adds.field _ _
      ("delegations", .optional Catalog.delegations) _ _ _
      (by simp) rfl hDelegations

/- Targets grow with their file. -/
theorem adds_targets_of_file
    {file file' : Value}
    (role : Value)
    (hFile : Catalog.fileInfo.Adds file file') :
    Catalog.targets.Adds (delegatingTargets role file)
      (delegatingTargets role file') := by
  have hFiles :
      Catalog.fileDict.Adds (.mapping [("a", file)])
        (.mapping [("a", file')]) :=
    @Adds.value _ _ [] [] _ _ _ hFile
  exact
    @Adds.field _ _ ("targets", Catalog.fileDict) _ _ _
      (by simp) rfl hFiles

/-
  A member is added to the element of a list below an optional
  field, and one to a value of a dictionary, each below an
  alternative.
-/
theorem accepts_of_additions_targets :
    Catalog.anyRole.DistinctFields ∧
      Relation.ReflTransGen Catalog.anyRole.Adds
        (delegatingTargets (delegatedRole []) (listedFile []))
        (delegatingTargets (delegatedRole [("note", .null)])
          (listedFile [("mode", .mapping [])])) ∧
      Catalog.anyRole.accepts
          (delegatingTargets (delegatedRole [("note", .null)])
            (listedFile [("mode", .mapping [])])) =
        true := by
  have hDistinct : Catalog.anyRole.DistinctFields := by
    apply distinctFields_of_hasDistinctFields
    decide +kernel
  have hOld :
      Catalog.targets.accepts
          (delegatingTargets (delegatedRole [])
            (listedFile [])) =
        true := by
    decide +kernel
  have hBetween :
      Catalog.targets.accepts
          (delegatingTargets (delegatedRole [("note", .null)])
            (listedFile [])) =
        true := by
    decide +kernel
  have hAny :
      Catalog.anyRole.accepts
          (delegatingTargets (delegatedRole [])
            (listedFile [])) =
        true := by
    decide +kernel
  have hTargets :
      Catalog.targets ∈
        [Catalog.root, Catalog.targets, Catalog.snapshot,
          Catalog.timestamp, Catalog.mirrorList] := by
    simp only [List.mem_cons, true_or, or_true]
  have hRole :
      Catalog.role.Adds (delegatedRole [])
        (delegatedRole [("note", .null)]) :=
    @Adds.member _ _ _ "note" (by decide) (by decide) .null
  have hFile :
      Catalog.fileInfo.Adds (listedFile [])
        (listedFile [("mode", .mapping [])]) :=
    @Adds.member _ _ _ "mode" (by decide) (by decide)
      (.mapping [])
  have hAdded :
      Relation.ReflTransGen Catalog.anyRole.Adds
        (delegatingTargets (delegatedRole []) (listedFile []))
        (delegatingTargets (delegatedRole [("note", .null)])
          (listedFile [("mode", .mapping [])])) := by
    apply Relation.ReflTransGen.tail (.single _)
    · exact
        .alternative hTargets hBetween
          (adds_targets_of_file _ hFile)
    · exact
        .alternative hTargets hOld
          (adds_targets_of_role _ hRole)
  exact
    ⟨hDistinct, hAdded,
      accepts_of_additions.1 _ _ _ hDistinct hAny hAdded⟩

end Shape

end SignedMetadata
