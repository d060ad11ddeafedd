import SignedMetadata.Proofs.Members
import SignedMetadata.Proofs.Shape.Objects
import SignedMetadata.Role

/-
  Every value is metadata of one role at most.

  The shape of a role requires the member `_type` to be the
  name of the role, and no two roles share a name.  So the
  role that metadata names is the only one whose shape it can
  have, and finding the role first accepts exactly what has
  one of the shapes.

  Main declarations:
    * `Role.get?_of_describes`
    * `Role.detect_eq_some_iff`
    * `Role.checkAny_eq_ok_iff`
    * `Role.check_anyRole_iff`
    * `Role.check_exclusive`
-/

namespace SignedMetadata

namespace Role

open Fallible

variable {reads : Pattern → String → Prop}
variable {role : Role}
variable {v : Value}

------------------------------------------------------------
-- Names
------------------------------------------------------------

/- Every role is listed. -/
theorem mem_all (role : Role) : role ∈ all := by
  cases role <;> decide

/- The role of a name is found. -/
theorem find?_typeName (role : Role) :
    all.find? (fun r => r.typeName = role.typeName) =
      some role := by
  cases role <;> rfl

/- Metadata names the role whose name its member holds. -/
theorem detect_eq_some_iff :
    detect v = some role ↔
      v.get? "_type" = some (.string role.typeName) := by
  constructor
  · intro hDetect
    rcases Option.bind_eq_some_iff.mp hDetect with
      ⟨w, hGet, hName⟩
    rcases Option.bind_eq_some_iff.mp hName with
      ⟨name, hString, hFind⟩
    have hSame : role.typeName = name := by
      simpa using List.find?_some hFind
    rw [hGet, hSame]
    cases w with
    | string s =>
        rw [Value.string?, Option.some.injEq] at hString
        rw [hString]
    | _ => cases hString
  · intro hGet
    rw [detect, hGet]
    exact find?_typeName role

------------------------------------------------------------
-- Shapes
------------------------------------------------------------

/- The shape of a role asks for the name of the role. -/
theorem shape_eq_object (role : Role) :
    ∃ name fields,
      role.shape =
        .object name
          (("_type", .exact role.typeName) :: fields) := by
  cases role <;> exact ⟨_, _, rfl⟩

/- What has the shape of a role names the role. -/
theorem get?_of_describes
    (hShape : role.shape.Describes reads v) :
    v.get? "_type" = some (.string role.typeName) := by
  rcases shape_eq_object role with ⟨name, fields, hObject⟩
  rw [hObject] at hShape
  rcases hShape.required List.mem_cons_self rfl with
    ⟨w, hGet, hExact⟩
  cases hExact with
  | exact text => exact hGet

/- The shape of a role asks for a date of expiry. -/
theorem expires_mem_shape (role : Role) :
    ∃ name fields,
      role.shape = .object name fields ∧
        ("expires", Catalog.datetime) ∈ fields := by
  cases role <;>
    refine ⟨_, _, rfl, ?_⟩ <;>
    simp only [List.mem_cons, true_or, or_true]

/- What has the shape of a role has a text of expiry. -/
theorem expires_of_describes
    (hShape : role.shape.Describes reads v) :
    ∃ text, v.get? "expires" = some (.string text) := by
  rcases expires_mem_shape role with
    ⟨name, fields, hObject, hField⟩
  rw [hObject] at hShape
  rcases hShape.required hField rfl with
    ⟨w, hGet, hDate⟩
  rcases Shape.describes_pattern_iff.mp hDate with
    ⟨text, rfl, _⟩
  exact ⟨text, hGet⟩

/- The shape of all roles has the shape of each of them. -/
theorem anyRole_eq :
    Catalog.anyRole = .oneOf (all.map shape) := by
  rfl

------------------------------------------------------------
-- Checks
------------------------------------------------------------

/- A check succeeds for what has the shape of the role. -/
theorem check_iff_describes :
    role.check v = .ok () ↔
      role.shape.Describes Shape.Found v :=
  Shape.checkAt_eq_ok_iff role.shape Path.root v

/- What is checked against a role names the role. -/
theorem detect_of_check
    (hCheck : role.check v = .ok ()) :
    detect v = some role := by
  rw [detect_eq_some_iff]
  exact get?_of_describes (check_iff_describes.mp hCheck)

/- The role that was found is the one that was checked. -/
theorem checkAny_eq_ok_iff :
    checkAny v = .ok role ↔ role.check v = .ok () := by
  constructor
  · intro hAny
    unfold checkAny at hAny
    split at hAny
    · cases hAny
    · rename_i named _
      rw [check_eq_ok_iff, return_eq_ok_iff] at hAny
      rcases hAny with ⟨hCheck, rfl⟩
      exact hCheck
  · intro hCheck
    rw [checkAny, detect_of_check hCheck]
    dsimp only
    rw [check_eq_ok_iff, return_eq_ok_iff]
    exact ⟨hCheck, rfl⟩

/- The role passes, and is the expected one if there is one. -/
theorem checkExpected_eq_ok_iff
    {expected : Option Role} :
    checkExpected expected v = .ok role ↔
      (∀ wanted ∈ expected, wanted = role) ∧
        role.check v = .ok () := by
  cases expected with
  | none =>
      rw [checkExpected, checkAny_eq_ok_iff]
      exact (and_iff_right fun _ hNone => by cases hNone).symm
  | some wanted =>
      rw [checkExpected, check_eq_ok_iff, return_eq_ok_iff]
      constructor
      · rintro ⟨hCheck, rfl⟩
        exact ⟨fun _ hSome => (Option.some.inj hSome).symm,
          hCheck⟩
      · rintro ⟨hSame, hCheck⟩
        cases hSame wanted rfl
        exact ⟨hCheck, rfl⟩

/- What passes as expected passes for the role. -/
theorem check_of_checkExpected
    {expected : Option Role}
    (hExpected : checkExpected expected v = .ok role) :
    role.check v = .ok () :=
  (checkExpected_eq_ok_iff.mp hExpected).2

/- Metadata of any role is metadata of some role. -/
theorem check_anyRole_iff :
    Catalog.anyRole.check v = .ok () ↔
      ∃ role : Role, role.check v = .ok () := by
  rw [Shape.check, Shape.checkAt_eq_ok_iff, anyRole_eq]
  constructor
  · intro hAny
    cases hAny with
    | oneOf hMember hShape =>
        rcases List.mem_map.mp hMember with ⟨role, _, rfl⟩
        exact ⟨role, check_iff_describes.mpr hShape⟩
  · rintro ⟨role, hCheck⟩
    exact
      .oneOf (List.mem_map.mpr ⟨role, mem_all role, rfl⟩)
        (check_iff_describes.mp hCheck)

------------------------------------------------------------
-- One Role at Most
------------------------------------------------------------

/- What passes for two roles names both, so they are one. -/
theorem eq_of_check
    {r s : Role}
    (hFirst : r.check v = .ok ())
    (hSecond : s.check v = .ok ()) :
    r = s := by
  have hNamed := detect_of_check hFirst
  rw [detect_of_check hSecond] at hNamed
  exact (Option.some.inj hNamed).symm

/-
  No value passes for two roles.  The shape of all roles
  accepts exactly what passes for the role that it names, and
  such a value passes for no other role.
-/
theorem check_exclusive (v : Value) :
    (∀ r s : Role,
      r.check v = .ok () → s.check v = .ok () → r = s) ∧
      (Catalog.anyRole.check v = .ok () ↔
        ∃ role, checkAny v = .ok role) ∧
      ∀ role, checkAny v = .ok role →
        detect v = some role ∧
          ∀ other : Role,
            other.check v = .ok () ↔ other = role := by
  refine ⟨fun r s => eq_of_check, ?_, ?_⟩
  · simp only [check_anyRole_iff, checkAny_eq_ok_iff]
  · intro role hAny
    have hCheck := checkAny_eq_ok_iff.mp hAny
    refine ⟨detect_of_check hCheck, ?_⟩
    intro other
    constructor
    · intro hOther
      exact eq_of_check hOther hCheck
    · rintro rfl
      exact hCheck

/- Metadata with all that two of the roles ask for. -/
def versionsOf (typeName : String) : Value :=
  .mapping
    [("_type", .string typeName),
      ("expires", .string "2030-01-01T00:00:00Z"),
      ("meta",
        .mapping
          [("root.json",
            .mapping [("version", .integer 2)])]),
      ("note", .null), ("version", .integer 7)]

/- Only the name tells snapshots from timestamps. -/
theorem check_exclusive_timestamp :
    checkAny (versionsOf "Timestamp") = .ok .timestamp ∧
      Role.timestamp.check (versionsOf "Timestamp") =
        .ok () ∧
      Role.snapshot.check (versionsOf "Timestamp") ≠
        .ok () ∧
      Role.snapshot.check (versionsOf "Snapshot") = .ok () ∧
      Catalog.anyRole.check (versionsOf "Timestamp") =
        .ok () := by
  have hAny :
      checkAny (versionsOf "Timestamp") =
        .ok .timestamp := by
    decide +kernel
  have hSnapshot :
      checkAny (versionsOf "Snapshot") = .ok .snapshot := by
    decide +kernel
  rcases check_exclusive (versionsOf "Timestamp") with
    ⟨hOne, hShape, hRole⟩
  rcases hRole .timestamp hAny with ⟨_, hOnly⟩
  have hCheck := (hOnly .timestamp).mpr rfl
  refine ⟨hAny, hCheck, ?_, ?_, ?_⟩
  · intro hOther
    cases hOne .timestamp .snapshot hCheck hOther
  · exact checkAny_eq_ok_iff.mp hSnapshot
  · exact hShape.mpr ⟨.timestamp, hAny⟩

end Role

end SignedMetadata
