import SignedMetadata.Limits
import SignedMetadata.Path
import SignedMetadata.Sink

/-
  Why a value has no canonical text.

  Causes that belong to a place in the value carry its path.
-/

namespace SignedMetadata

------------------------------------------------------------
-- Causes
------------------------------------------------------------

/- Why data could not be brought into canonical text. -/
inductive EncodeError where
| floatingPoint (path : Path) (literal : String)
| integerOutOfRange (path : Path) (literal : String)
| tooDeep (path : Path) (limit : Nat)
| tooLarge (limit : Nat)
| unwritable (reason : String)
| sink (cause : SinkError)
deriving DecidableEq, Repr

/- The wording of a cause. -/
def EncodeError.message : EncodeError → String
| .floatingPoint path literal =>
    "cannot canonicalize value at " ++ path.render ++
      ": floating-point number " ++ literal
| .integerOutOfRange path literal =>
    "integer " ++ literal ++ " at " ++ path.render ++
      " is out of range"
| .tooDeep path limit =>
    "nesting at " ++ path.render ++
      " exceeds maximum depth " ++ Text.ofNatural limit
| .tooLarge limit =>
    "canonical output exceeds maximum size of " ++
      Text.ofNatural limit ++ " bytes"
| .unwritable reason => "serialization failed: " ++ reason
| .sink cause => cause.message

------------------------------------------------------------
-- Depth
------------------------------------------------------------

/- A container may stand at the path. -/
def Limits.enter
    (limits : Limits)
    (path : Path) : Except EncodeError Unit :=
  if limits.maxDepth ≤ path.length then
    .error (.tooDeep path limits.maxDepth)
  else
    .ok ()

end SignedMetadata
