import SignedMetadata.Proofs.Fallible
import SignedMetadata.Shape.Check

/-
  What shapes mean.

  `Shape.Describes` says of which values a shape is true, one
  rule for every kind of shape; how a pattern is to be read
  is left open.  Checking a value succeeds exactly if it is
  described, with patterns read as they are searched for.

  Main declarations:
    * `Shape.Describes`
    * `Shape.SubShape`
    * `Shape.Describes.mono`
    * `Shape.checkAt_eq_ok_iff`
-/

namespace SignedMetadata

open Fallible

namespace Shape

------------------------------------------------------------
-- Meaning
------------------------------------------------------------

/-
  The value is as the shape says, where `reads` says which
  texts a pattern describes.  Fields that an object does not
  name are free, and named ones may be absent if optional.
-/
inductive Describes (reads : Pattern → String → Prop) :
    Shape → Value → Prop where
| any (v : Value) : Describes reads .any v
| anyString (s : String) :
    Describes reads .anyString (.string s)
| exact (text : String) :
    Describes reads (.exact text) (.string text)
| pattern
    {p : Pattern} {s : String} (hReads : reads p s) :
    Describes reads (.pattern p) (.string s)
| integer
    {least greatest i : Int}
    (hLeast : least ≤ i) (hGreatest : i ≤ greatest) :
    Describes reads (.integer least greatest) (.integer i)
| boolean (b : Bool) : Describes reads .boolean (.bool b)
| listOf
    {item : Shape} {least greatest : Nat}
    {items : List Value}
    (hLeast : least ≤ items.length)
    (hGreatest : items.length ≤ greatest)
    (hItems : ∀ v ∈ items, Describes reads item v) :
    Describes reads (.listOf item least greatest)
      (.sequence items)
| dictOf
    {key value : Shape} {members : Members Value}
    (hKeys :
      ∀ m ∈ members, Describes reads key (.string m.1))
    (hValues : ∀ m ∈ members, Describes reads value m.2) :
    Describes reads (.dictOf key value) (.mapping members)
| object
    {name : String} {fields : List (String × Shape)}
    {members : Members Value}
    (hFields :
      ∀ f ∈ fields, ∀ v, members.find? f.1 = some v →
        Describes reads f.2 v)
    (hRequired :
      ∀ f ∈ fields, members.find? f.1 = none →
        ∃ inner, f.2 = .optional inner) :
    Describes reads (.object name fields) (.mapping members)
| oneOf
    {alternatives : List Shape} {alternative : Shape}
    {v : Value}
    (hMember : alternative ∈ alternatives)
    (hValue : Describes reads alternative v) :
    Describes reads (.oneOf alternatives) v
| optional
    {shape : Shape} {v : Value}
    (hValue : Describes reads shape v) :
    Describes reads (.optional shape) v

/- The first shape is a part of the second, or is it. -/
inductive SubShape (part : Shape) : Shape → Prop where
| whole : SubShape part part
| item
    {item : Shape} {least greatest : Nat}
    (hItem : SubShape part item) :
    SubShape part (.listOf item least greatest)
| key
    {key value : Shape} (hKey : SubShape part key) :
    SubShape part (.dictOf key value)
| value
    {key value : Shape} (hValue : SubShape part value) :
    SubShape part (.dictOf key value)
| field
    {name : String} {fields : List (String × Shape)}
    {field : String × Shape} (hField : field ∈ fields)
    (hShape : SubShape part field.2) :
    SubShape part (.object name fields)
| alternative
    {alternatives : List Shape} {alternative : Shape}
    (hMember : alternative ∈ alternatives)
    (hShape : SubShape part alternative) :
    SubShape part (.oneOf alternatives)
| inner
    {shape : Shape} (hShape : SubShape part shape) :
    SubShape part (.optional shape)

/- A part of a part is a part of the whole. -/
theorem SubShape.trans
    {part shape whole : Shape}
    (hPart : SubShape part shape)
    (hShape : SubShape shape whole) :
    SubShape part whole := by
  induction hShape with
  | whole => exact hPart
  | item _ ih => exact .item ih
  | key _ ih => exact .key ih
  | value _ ih => exact .value ih
  | field hField _ ih => exact .field hField ih
  | alternative hMember _ ih => exact .alternative hMember ih
  | inner _ ih => exact .inner ih

variable {reads reads' : Pattern → String → Prop}

/- A shape says less if its patterns are read more widely. -/
theorem Describes.mono
    {shape : Shape}
    {v : Value}
    (hValue : Describes reads shape v)
    (hReads :
      ∀ p, SubShape (.pattern p) shape →
        ∀ text, reads p text → reads' p text) :
    Describes reads' shape v := by
  induction hValue with
  | any v => exact .any v
  | anyString s => exact .anyString s
  | exact text => exact .exact text
  | pattern hText => exact .pattern (hReads _ .whole _ hText)
  | integer hLeast hGreatest =>
      exact .integer hLeast hGreatest
  | boolean b => exact .boolean b
  | listOf hLeast hGreatest _ ih =>
      apply Describes.listOf hLeast hGreatest
      intro v hv
      exact ih v hv fun p hp => hReads p (.item hp)
  | dictOf _ _ ihKeys ihValues =>
      apply Describes.dictOf
      · intro m hm
        exact ihKeys m hm fun p hp => hReads p (.key hp)
      · intro m hm
        exact ihValues m hm fun p hp => hReads p (.value hp)
  | object _ hRequired ih =>
      apply Describes.object _ hRequired
      intro f hf v hv
      exact ih f hf v hv fun p hp => hReads p (.field hf hp)
  | oneOf hMember _ ih =>
      apply Describes.oneOf hMember
      exact ih fun p hp => hReads p (.alternative hMember hp)
  | optional _ ih =>
      apply Describes.optional
      exact ih fun p hp => hReads p (.inner hp)

------------------------------------------------------------
-- Expectations
------------------------------------------------------------

variable {path : Path}
variable {expected : String}
variable {v : Value}

/- The text is that of a string. -/
theorem expectString_eq_ok_iff
    {s : String} :
    expectString path expected v = .ok s ↔
      v = .string s := by
  cases v <;> simp [expectString]

/- The members are those of a mapping. -/
theorem expectMapping_eq_ok_iff
    {members : Members Value} :
    expectMapping path expected v = .ok members ↔
      v = .mapping members := by
  cases v <;> simp [expectMapping]

/- The elements are those of a sequence. -/
theorem expectSequence_eq_ok_iff
    {items : List Value} :
    expectSequence path expected v = .ok items ↔
      v = .sequence items := by
  cases v <;> simp [expectSequence]

/- The integer lies between the bounds. -/
theorem checkInteger_eq_ok_iff
    {least greatest : Int} :
    checkInteger path least greatest v = .ok () ↔
      ∃ i, v = .integer i ∧ least ≤ i ∧ i ≤ greatest := by
  cases v with
  | integer i =>
      rw [checkInteger]
      split <;> simp_all
  | _ => simp [checkInteger]

/- All elements pass if each of them does. -/
theorem eachItem_eq_ok_iff
    {check : Path → Value → Except ShapeError Unit}
    {P : Value → Prop}
    (hCheck : ∀ path v, check path v = .ok () ↔ P v)
    (position : Nat)
    (items : List Value) :
    eachItem check path position items = .ok () ↔
      ∀ v ∈ items, P v := by
  induction items generalizing position with
  | nil => exact iff_of_true rfl (List.forall_mem_nil _)
  | cons v vs ih =>
      rw [eachItem, check_eq_ok_iff, hCheck, ih,
        List.forall_mem_cons]

/- All members pass if each key and each value does. -/
theorem eachMember_eq_ok_iff
    {checkKey check : Path → Value → Except ShapeError Unit}
    {K P : Value → Prop}
    (hKey : ∀ path v, checkKey path v = .ok () ↔ K v)
    (hCheck : ∀ path v, check path v = .ok () ↔ P v)
    (members : List (String × Value)) :
    eachMember checkKey check path members = .ok () ↔
      (∀ m ∈ members, K (.string m.1)) ∧
        ∀ m ∈ members, P m.2 := by
  induction members with
  | nil =>
      exact
        iff_of_true rfl
          ⟨List.forall_mem_nil _, List.forall_mem_nil _⟩
  | cons m ms ih =>
      rw [eachMember, check_eq_ok_iff, check_eq_ok_iff, hKey,
        hCheck, ih, List.forall_mem_cons,
        List.forall_mem_cons]
      constructor
      · rintro ⟨hk, hv, hks, hvs⟩
        exact ⟨⟨hk, hks⟩, hv, hvs⟩
      · rintro ⟨⟨hk, hks⟩, hv, hvs⟩
        exact ⟨hk, hv, hks, hvs⟩

------------------------------------------------------------
-- Checks
------------------------------------------------------------

/- A check succeeds with nothing but the success. -/
theorem isOk_iff
    {result : Except ShapeError Unit} :
    result.isOk = true ↔ result = .ok () := by
  cases result with
  | ok u => exact iff_of_true rfl rfl
  | error cause =>
      apply iff_of_false Bool.false_ne_true
      intro hOk
      cases hOk

/- A field may be absent if its shape says so. -/
theorem isOptional_iff
    {shape : Shape} :
    shape.isOptional = true ↔
      ∃ inner, shape = .optional inner := by
  cases shape <;> simp [isOptional]

/- A pattern read as it is searched for. -/
def Found (p : Pattern) (text : String) : Prop :=
  p.accepts text = true

mutual

/- A value passes exactly if the shape describes it. -/
theorem checkAt_eq_ok_iff
    (shape : Shape)
    (path : Path)
    (v : Value) :
    shape.checkAt path v = .ok () ↔
      shape.Describes Found v := by
  match shape with
  | .any => exact iff_of_true rfl (.any v)
  | .anyString =>
      rw [checkAt, bind_eq_ok_iff]
      constructor
      · rintro ⟨s, hString, _⟩
        rw [expectString_eq_ok_iff.mp hString]
        exact .anyString s
      · rintro ⟨s⟩
        exact ⟨_, rfl, rfl⟩
  | .exact text =>
      rw [checkAt, bind_eq_ok_iff]
      constructor
      · rintro ⟨s, hString, hText⟩
        rw [expectString_eq_ok_iff.mp hString]
        split at hText
        · rename_i hSame
          rw [hSame]
          exact .exact text
        · cases hText
      · rintro ⟨_⟩
        exact ⟨text, rfl, if_pos rfl⟩
  | .pattern p =>
      rw [checkAt, bind_eq_ok_iff]
      constructor
      · rintro ⟨s, hString, hText⟩
        rw [expectString_eq_ok_iff.mp hString]
        split at hText
        · rename_i hFound
          exact .pattern hFound
        · cases hText
      · intro hValue
        cases hValue with
        | @pattern _ s hFound =>
            exact ⟨s, rfl, if_pos hFound⟩
  | .integer least greatest =>
      rw [checkAt, checkInteger_eq_ok_iff]
      constructor
      · rintro ⟨i, rfl, hLeast, hGreatest⟩
        exact .integer hLeast hGreatest
      · intro hValue
        cases hValue with
        | @integer _ _ i hLeast hGreatest =>
            exact ⟨i, rfl, hLeast, hGreatest⟩
  | .boolean =>
      cases v with
      | bool b => exact iff_of_true rfl (.boolean b)
      | _ =>
          apply iff_of_false
          · intro hCheck
            cases hCheck
          · intro hValue
            cases hValue
  | .listOf item least greatest =>
      have hItem := checkAt_eq_ok_iff item
      rw [checkAt, bind_eq_ok_iff]
      constructor
      · rintro ⟨items, hSequence, hItems⟩
        rw [expectSequence_eq_ok_iff.mp hSequence]
        split at hItems
        · cases hItems
        · rename_i hCount
          rw [eachItem_eq_ok_iff hItem] at hItems
          exact .listOf (by omega) (by omega) hItems
      · intro hValue
        cases hValue with
        | @listOf _ _ _ items hLeast hGreatest hItems =>
            refine ⟨items, rfl, ?_⟩
            rw [if_neg (by omega), eachItem_eq_ok_iff hItem]
            exact hItems
  | .dictOf key value =>
      have hKey := checkAt_eq_ok_iff key
      have hValue := checkAt_eq_ok_iff value
      rw [checkAt, bind_eq_ok_iff]
      constructor
      · rintro ⟨members, hMapping, hMembers⟩
        rw [expectMapping_eq_ok_iff.mp hMapping]
        rw [eachMember_eq_ok_iff hKey hValue] at hMembers
        exact .dictOf hMembers.1 hMembers.2
      · intro hDict
        cases hDict with
        | @dictOf _ _ members hKeys hValues =>
            refine ⟨members, rfl, ?_⟩
            rw [eachMember_eq_ok_iff hKey hValue]
            exact ⟨hKeys, hValues⟩
  | .object name fields =>
      rw [checkAt, bind_eq_ok_iff]
      constructor
      · rintro ⟨members, hMapping, hFields⟩
        rw [expectMapping_eq_ok_iff.mp hMapping]
        rw [checkFields_eq_ok_iff] at hFields
        exact
          .object (fun f hf => (hFields f hf).1)
            fun f hf => (hFields f hf).2
      · intro hObject
        cases hObject with
        | @object _ _ members hFields hRequired =>
            refine ⟨members, rfl, ?_⟩
            rw [checkFields_eq_ok_iff]
            exact fun f hf => ⟨hFields f hf, hRequired f hf⟩
  | .oneOf alternatives =>
      have hAny := anyMatches_iff path v alternatives
      rw [checkAt]
      constructor
      · intro hOne
        split at hOne
        · rename_i hMatches
          rcases hAny.mp hMatches with ⟨s, hs, hValue⟩
          exact .oneOf hs hValue
        · cases hOne
      · intro hOne
        cases hOne with
        | oneOf hMember hValue =>
            exact if_pos (hAny.mpr ⟨_, hMember, hValue⟩)
  | .optional shape =>
      rw [checkAt, checkAt_eq_ok_iff shape]
      constructor
      · exact .optional
      · intro hOptional
        cases hOptional with
        | optional hValue => exact hValue

/- The fields of an object pass if each of them does. -/
theorem checkFields_eq_ok_iff
    (path : Path)
    (name : String)
    (members : Members Value)
    (fields : List (String × Shape)) :
    checkFields path name members fields = .ok () ↔
      ∀ f ∈ fields,
        (∀ v, members.find? f.1 = some v →
          f.2.Describes Found v) ∧
          (members.find? f.1 = none →
            ∃ inner, f.2 = .optional inner) := by
  match fields with
  | [] => exact iff_of_true rfl (List.forall_mem_nil _)
  | (field, shape) :: rest =>
      have hShape := checkAt_eq_ok_iff shape
      have hRest :=
        checkFields_eq_ok_iff path name members rest
      rw [checkFields, List.forall_mem_cons, ← hRest]
      dsimp only
      cases members.find? field with
      | some v =>
          dsimp only
          rw [check_eq_ok_iff, hShape]
          simp only [Option.some.injEq, forall_eq',
            reduceCtorEq, false_implies, and_true]
      | none =>
          dsimp only
          rw [guard_eq_ok_iff, Bool.not_eq_true',
            Bool.not_eq_false, isOptional_iff]
          simp only [reduceCtorEq, false_implies,
            implies_true, true_and, true_implies]

/- Some shape passes if one of them describes the value. -/
theorem anyMatches_iff
    (path : Path)
    (v : Value)
    (shapes : List Shape) :
    anyMatches path v shapes = true ↔
      ∃ shape ∈ shapes, shape.Describes Found v := by
  match shapes with
  | [] =>
      apply iff_of_false Bool.false_ne_true
      rintro ⟨shape, hNone, _⟩
      cases hNone
  | shape :: shapes =>
      have hPasses :
          (shape.checkAt path v).isOk = true ↔
            shape.Describes Found v := by
        rw [isOk_iff, checkAt_eq_ok_iff shape path v]
      rw [anyMatches, Bool.or_eq_true, hPasses,
        anyMatches_iff path v shapes]
      simp only [List.mem_cons, exists_eq_or_imp]

end

end Shape

end SignedMetadata
