import SignedMetadata.Proofs.Shape.Meaning

/-
  Objects by their required fields.

  A field is required if its shape is not optional.  An
  object binds every required field to a value of the shape
  of the field, and nothing more is asked of an object whose
  fields are all required.

  Main declarations:
    * `Shape.Describes.required`
    * `Shape.describes_object_iff_required`
    * `Shape.describes_pattern_iff`
    * `Shape.describes_list_iff`
-/

namespace SignedMetadata

namespace Shape

variable {reads : Pattern → String → Prop}
variable {name : String}
variable {fields : List (String × Shape)}
variable {field : String × Shape}
variable {v : Value}

/- A shape that is not optional does not excuse a field. -/
theorem ne_optional_of_required
    (hRequired : field.2.isOptional = false) :
    ¬ ∃ inner, field.2 = .optional inner := by
  rw [← isOptional_iff, hRequired]
  exact Bool.false_ne_true

/- A required field is bound to a value of its shape. -/
theorem Describes.required
    (hObject : (Shape.object name fields).Describes reads v)
    (hField : field ∈ fields)
    (hRequired : field.2.isOptional = false) :
    ∃ w, v.get? field.1 = some w ∧
      field.2.Describes reads w := by
  cases hObject with
  | @object _ _ members hFields hAbsent =>
      cases hFind : members.find? field.1 with
      | none =>
          exact
            absurd (hAbsent field hField hFind)
              (ne_optional_of_required hRequired)
      | some w =>
          exact ⟨w, hFind, hFields field hField w hFind⟩

/-
  Objects whose fields are all required are the mappings that
  bind each field to a value of its shape.
-/
theorem describes_object_iff_required
    (hRequired : ∀ f ∈ fields, f.2.isOptional = false) :
    (Shape.object name fields).Describes reads v ↔
      (∃ members : Members Value, v = .mapping members) ∧
        ∀ f ∈ fields,
          ∃ w, v.get? f.1 = some w ∧
            f.2.Describes reads w := by
  constructor
  · intro hObject
    refine ⟨?_, ?_⟩
    · cases hObject with
      | @object _ _ members hFields hAbsent =>
          exact ⟨members, rfl⟩
    · intro f hf
      exact hObject.required hf (hRequired f hf)
  · rintro ⟨⟨members, rfl⟩, hFields⟩
    apply Describes.object
    · intro f hf w hFind
      rcases hFields f hf with ⟨u, hBound, hShape⟩
      have hSame : some u = some w := hBound.symm.trans hFind
      rw [Option.some.injEq] at hSame
      rw [← hSame]
      exact hShape
    · intro f hf hFind
      rcases hFields f hf with ⟨u, hBound, _⟩
      have hNone : some u = none := hBound.symm.trans hFind
      exact absurd hNone (Option.some_ne_none u)

/- Patterns describe the texts that they are read as. -/
theorem describes_pattern_iff
    {p : Pattern} :
    (Shape.pattern p).Describes reads v ↔
      ∃ text, v = .string text ∧ reads p text := by
  constructor
  · intro hPattern
    cases hPattern with
    | @pattern _ text hReads => exact ⟨text, rfl, hReads⟩
  · rintro ⟨text, rfl, hReads⟩
    exact .pattern hReads

/- Lists of any length have elements of one shape. -/
theorem describes_list_iff
    {item : Shape} :
    (Shape.list item).Describes reads v ↔
      ∃ items, v = .sequence items ∧
        items.length ≤ greatestCount ∧
          ∀ w ∈ items, item.Describes reads w := by
  constructor
  · intro hList
    cases hList with
    | @listOf _ _ _ items _ hCount hItems =>
        exact ⟨items, rfl, hCount, hItems⟩
  · rintro ⟨items, rfl, hCount, hItems⟩
    exact .listOf (Nat.zero_le _) hCount hItems

end Shape

end SignedMetadata
