import SignedMetadata.Proofs.Path
import SignedMetadata.Shape.Basic

/-
  How errors name their places.

  The wording of an error is the text of its path, a colon,
  and a part that does not depend on the path.  An error that
  is moved below some steps has their text before the rest of
  its path, and the same part behind it.

  Main declarations:
    * `ShapeError.message_eq`
    * `ShapeError.message_under`
-/

namespace SignedMetadata

------------------------------------------------------------
-- Errors
------------------------------------------------------------

namespace ShapeError

/- What an error says about its place. -/
def detail : ShapeError → String
| .mismatch _ expected found =>
    "expected " ++ expected ++ ", found " ++ found
| .missingField _ object field =>
    object ++ " is missing required field '" ++ field ++ "'"
| .unexpectedField _ field =>
    "unexpected field '" ++ field ++ "'"
| .noAlternative _ count =>
    "value matches none of the " ++ Text.ofNatural count ++
      " allowed shapes"

/- An error names its place, and says something about it. -/
theorem message_eq (e : ShapeError) :
    e.message = Path.render e.path ++ ": " ++ e.detail := by
  have hExpected : ": expected " = ": " ++ "expected " := by
    rfl
  have hUnexpected :
      ": unexpected field '" =
        ": " ++ "unexpected field '" := by
    rfl
  have hNone :
      ": value matches none of the " =
        ": " ++ "value matches none of the " := by
    rfl
  cases e with
  | mismatch path expected found =>
      unfold message detail
      dsimp only [ShapeError.path]
      rw [hExpected]
      ac_rfl
  | missingField path object field =>
      unfold message detail
      dsimp only [ShapeError.path]
      ac_rfl
  | unexpectedField path field =>
      unfold message detail
      dsimp only [ShapeError.path]
      rw [hUnexpected]
      ac_rfl
  | noAlternative path count =>
      unfold message detail
      dsimp only [ShapeError.path]
      rw [hNone]
      ac_rfl

/- An error at the root stays where it is. -/
theorem under_root (e : ShapeError) :
    e.under Path.root = e := by
  cases e <;> rfl

/- A check at the root fails where it fails. -/
theorem mapError_under_root
    {α : Type}
    (checked : Except ShapeError α) :
    (checked.mapError fun e => e.under Path.root) =
      checked := by
  cases checked with
  | ok a => rfl
  | error e => exact congrArg Except.error e.under_root

/- The place of an error that was moved. -/
theorem path_under (above : Path) (e : ShapeError) :
    (e.under above).path = above ++ e.path := by
  cases e <;> rfl

/- Moving an error does not change what it says. -/
theorem detail_under (above : Path) (e : ShapeError) :
    (e.under above).detail = e.detail := by
  cases e <;> rfl

/- The wording of an error that was moved. -/
theorem message_under (above : Path) (e : ShapeError) :
    (e.under above).message =
      Path.render above ++ Path.steps e.path ++ ": " ++
        e.detail := by
  rw [message_eq, path_under, detail_under,
    Path.render_append]

end ShapeError

end SignedMetadata
