import SignedMetadata.Envelope.Basic
import SignedMetadata.Proofs.Fallible
import SignedMetadata.Proofs.Shape.Wording

/-
  Checking a value where it stands.

  A check is told the path of the value, and only puts the
  steps to a fault behind it.  So a value below some steps
  has the fault that it has by itself, at the same place
  below these steps.  The text of this place is that of the
  steps, followed by that of the place without the root; for
  the payload of an envelope, it is the text of the place
  with another one for the root in front.

  Main declarations:
    * `Shape.Relocates`
    * `Shape.relocates_checkAt`
    * `ShapeError.SameFault`
    * `Text.replaceFirst`
    * `Shape.checkAt_commutes_with_relocation`
-/

namespace SignedMetadata

open Fallible

------------------------------------------------------------
-- Paths
------------------------------------------------------------

namespace Path

/- An element below some steps. -/
theorem index_append
    (above path : Path)
    (position : Nat) :
    index (above ++ path) position =
      above ++ path.index position := by
  exact List.append_assoc _ _ _

/- A member below some steps. -/
theorem field_append
    (above path : Path)
    (name : String) :
    field (above ++ path) name =
      above ++ path.field name := by
  exact List.append_assoc _ _ _

end Path

------------------------------------------------------------
-- Checks
------------------------------------------------------------

namespace Shape

variable {above : Path}

/-
  The check fails below some steps as it fails without them,
  with its error moved below them.
-/
def Relocates
    (above : Path)
    (check : Path → Value → Except ShapeError Unit) : Prop :=
  ∀ path v,
    check (above ++ path) v =
      (check path v).mapError fun e => e.under above

section

variable {expected : String}
variable {path : Path}
variable {v : Value}

/- What is no string is reported where it stands. -/
theorem expectString_append :
    expectString (above ++ path) expected v =
      (expectString path expected v).mapError
        fun e => e.under above := by
  cases v <;> rfl

/- What is no mapping is reported where it stands. -/
theorem expectMapping_append :
    expectMapping (above ++ path) expected v =
      (expectMapping path expected v).mapError
        fun e => e.under above := by
  cases v <;> rfl

/- What is no sequence is reported where it stands. -/
theorem expectSequence_append :
    expectSequence (above ++ path) expected v =
      (expectSequence path expected v).mapError
        fun e => e.under above := by
  cases v <;> rfl

end

/- An integer out of bounds is reported where it stands. -/
theorem relocates_checkInteger
    (least greatest : Int) :
    Relocates above fun path =>
      checkInteger path least greatest := by
  intro path v
  cases v with
  | integer i =>
      dsimp only [checkInteger]
      split <;> rfl
  | _ => rfl

/- Elements are moved with their sequence. -/
theorem eachItem_append
    {check : Path → Value → Except ShapeError Unit}
    (hCheck : Relocates above check)
    (path : Path)
    (position : Nat)
    (items : List Value) :
    eachItem check (above ++ path) position items =
      (eachItem check path position items).mapError
        fun e => e.under above := by
  induction items generalizing position with
  | nil => rfl
  | cons v vs ih =>
      rw [eachItem, eachItem, mapError_bind,
        Path.index_append, hCheck]
      simp only [ih]

/- Members are moved with their mapping. -/
theorem eachMember_append
    {checkKey check : Path → Value → Except ShapeError Unit}
    (hKey : Relocates above checkKey)
    (hCheck : Relocates above check)
    (path : Path)
    (members : List (String × Value)) :
    eachMember checkKey check (above ++ path) members =
      (eachMember checkKey check path members).mapError
        fun e => e.under above := by
  induction members with
  | nil => rfl
  | cons m ms ih =>
      rw [eachMember, eachMember, Path.field_append, hKey,
        hCheck, ih]
      simp only [mapError_bind]

mutual

/- The check of every shape may be moved. -/
theorem relocates_checkAt
    (above : Path)
    (shape : Shape) :
    Relocates above shape.checkAt := by
  intro path v
  match shape with
  | .any => rfl
  | .anyString =>
      rw [checkAt, checkAt, expectString_append,
        mapError_bind]
      rfl
  | .exact text =>
      rw [checkAt, checkAt, expectString_append,
        mapError_bind]
      congr 1
      funext s
      split <;> rfl
  | .pattern p =>
      rw [checkAt, checkAt, expectString_append,
        mapError_bind]
      congr 1
      funext s
      split <;> rfl
  | .integer least greatest =>
      exact relocates_checkInteger least greatest path v
  | .boolean => cases v <;> rfl
  | .listOf item least greatest =>
      rw [checkAt, checkAt, expectSequence_append,
        mapError_bind]
      congr 1
      funext items
      split
      · rfl
      · exact
          eachItem_append (relocates_checkAt above item) path
            0 items
  | .dictOf key value =>
      rw [checkAt, checkAt, expectMapping_append,
        mapError_bind]
      congr 1
      funext members
      exact
        eachMember_append (relocates_checkAt above key)
          (relocates_checkAt above value) path members
  | .object name fields =>
      rw [checkAt, checkAt, expectMapping_append,
        mapError_bind]
      congr 1
      funext members
      exact checkFields_append above path name members fields
  | .oneOf alternatives =>
      rw [checkAt, checkAt, anyMatches_append]
      split <;> rfl
  | .optional shape =>
      rw [checkAt, checkAt]
      exact relocates_checkAt above shape path v

/- Fields are moved with their object. -/
theorem checkFields_append
    (above path : Path)
    (name : String)
    (members : Members Value)
    (fields : List (String × Shape)) :
    checkFields (above ++ path) name members fields =
      (checkFields path name members fields).mapError
        fun e => e.under above := by
  match fields with
  | [] => rfl
  | (field, shape) :: rest =>
      have hRest :=
        checkFields_append above path name members rest
      rw [checkFields, checkFields]
      dsimp only
      cases members.find? field with
      | some v =>
          dsimp only
          rw [Path.field_append,
            relocates_checkAt above shape, hRest,
            mapError_bind]
      | none =>
          dsimp only
          split
          · rfl
          · exact hRest

/- The same alternatives match, wherever the value stands. -/
theorem anyMatches_append
    (above path : Path)
    (v : Value)
    (shapes : List Shape) :
    anyMatches (above ++ path) v shapes =
      anyMatches path v shapes := by
  match shapes with
  | [] => rfl
  | shape :: rest =>
      rw [anyMatches, anyMatches,
        relocates_checkAt above shape,
        anyMatches_append above path v rest]
      cases shape.checkAt path v <;> rfl

end

/- A check at a path is a check of the value by itself. -/
theorem checkAt_eq_mapError
    (shape : Shape)
    (path : Path)
    (v : Value) :
    shape.checkAt path v =
      (shape.check v).mapError fun e => e.under path := by
  have hMoved := relocates_checkAt path shape Path.root v
  rw [Path.root, List.append_nil] at hMoved
  exact hMoved

end Shape

------------------------------------------------------------
-- Texts of Places
------------------------------------------------------------

namespace Text

/- Characters with others for the first that is the same. -/
def replaceFirstChar
    (c : Char)
    (new : List Char) : List Char → List Char
| [] => []
| d :: ds =>
    if d = c then new ++ ds
    else d :: replaceFirstChar c new ds

/- The text with another for the first such character. -/
def replaceFirst (c : Char) (new text : String) : String :=
  String.ofList (replaceFirstChar c new.toList text.toList)

end Text

namespace Path

/- The text of a path starts with that of the root. -/
theorem render_eq (path : Path) :
    path.render = "$" ++ path.steps := by
  rfl

/- Below a payload, another text stands for the root. -/
theorem render_signed (path : Path) :
    render ([.field "signed"] ++ path) =
      Text.replaceFirst '$' "$.signed" path.render := by
  have hSigned :
      render [.field "signed"] = "$.signed" := by
    rfl
  rw [render_append, hSigned, render_eq, Text.replaceFirst]
  apply String.ext
  simp [Text.replaceFirstChar]

end Path

namespace ShapeError

/- The errors differ in their places at most. -/
inductive SameFault : ShapeError → ShapeError → Prop where
| mismatch
    (path place : Path) (expected found : String) :
    SameFault (.mismatch path expected found)
      (.mismatch place expected found)
| missingField
    (path place : Path) (object field : String) :
    SameFault (.missingField path object field)
      (.missingField place object field)
| unexpectedField
    (path place : Path) (field : String) :
    SameFault (.unexpectedField path field)
      (.unexpectedField place field)
| noAlternative
    (path place : Path) (count : Nat) :
    SameFault (.noAlternative path count)
      (.noAlternative place count)

/- An error that is moved differs in its place at most. -/
theorem sameFault_under (above : Path) (e : ShapeError) :
    SameFault e (e.under above) := by
  cases e <;> constructor

end ShapeError

------------------------------------------------------------
-- Relocation
------------------------------------------------------------

namespace Envelope

/- The payload is checked below the step to it. -/
theorem checkRole_some
    (envelope : Envelope)
    (role : Role) :
    envelope.checkRole (some role) = do
      role.shape.checkAt (Path.root.field "signed")
        envelope.signed
      return role := by
  rw [Shape.checkAt_eq_mapError]
  exact mapError_bind _ _

end Envelope

namespace Shape

open ShapeError (SameFault)

/-
  A value passes wherever it stands, or nowhere.  Where it
  stands, it has the fault that it has by itself, and the
  text of the place of the one is that of the other without
  the root, behind the text of the path.  The payload of an
  envelope is checked against a role below the step to it:
  the text of a place is that in the payload by itself, with
  `$.signed` for its first character `$`.
-/
theorem checkAt_commutes_with_relocation :
    (∀ (shape : Shape) (v : Value) (path : Path),
      (shape.checkAt path v = .ok () ↔
        shape.check v = .ok ()) ∧
      ∀ e, shape.check v = .error e →
        ∃ moved, shape.checkAt path v = .error moved ∧
          SameFault e moved ∧
          ∃ rest, e.path.render = "$" ++ rest ∧
            moved.path.render = path.render ++ rest) ∧
    ∀ (envelope : Envelope) (role : Role),
      (envelope.checkRole (some role) = do
        role.shape.checkAt (Path.root.field "signed")
          envelope.signed
        return role) ∧
      ∀ e, role.check envelope.signed = .error e →
        ∃ moved,
          envelope.checkRole (some role) = .error moved ∧
          SameFault e moved ∧
          moved.path.render =
            Text.replaceFirst '$' "$.signed"
              e.path.render := by
  refine ⟨?_, ?_⟩
  · intro shape v path
    have hMoved := shape.checkAt_eq_mapError path v
    refine ⟨?_, ?_⟩
    · rw [hMoved]
      exact mapError_eq_ok_iff
    · intro e hCheck
      rw [hCheck] at hMoved
      refine
        ⟨e.under path, hMoved, e.sameFault_under path,
          e.path.steps, e.path.render_eq, ?_⟩
      rw [ShapeError.path_under, Path.render_append]
  · intro envelope role
    have hChecked := envelope.checkRole_some role
    refine ⟨hChecked, ?_⟩
    intro e hCheck
    have hAlone :
        role.shape.check envelope.signed = .error e :=
      hCheck
    have hMoved :=
      role.shape.checkAt_eq_mapError
        (Path.root.field "signed") envelope.signed
    rw [hAlone] at hMoved
    refine
      ⟨e.under [.field "signed"], ?_,
        e.sameFault_under _, ?_⟩
    · rw [hChecked, hMoved]
      rfl
    · rw [ShapeError.path_under, Path.render_signed]

/- What else looks like a root in a key stays as it is. -/
example :
    Text.replaceFirst '$' "$.signed"
        (Path.render [.field "meta", .field "$.a[0]"]) =
      "$.signed.meta[\"$.a[0]\"]" := by
  decide

end Shape

end SignedMetadata
