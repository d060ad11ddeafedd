import SignedMetadata.Pattern.Basic
import SignedMetadata.Path
import SignedMetadata.Value

/-
  Shapes of structured values.

  A shape says what a well-formed value looks like: a fixed
  string, a string that matches a pattern, an integer in a
  range, a list, a dictionary, an object with named fields,
  and so on.  Objects may have more fields than a shape
  names.
-/

namespace SignedMetadata

------------------------------------------------------------
-- Shapes
------------------------------------------------------------

/- A description of well-formed values. -/
inductive Shape where
| any
| anyString
| exact (text : String)
| pattern (pattern : Pattern)
| integer (least greatest : Int)
| boolean
| listOf (item : Shape) (least greatest : Nat)
| dictOf (key value : Shape)
| object (name : String) (fields : List (String × Shape))
| oneOf (alternatives : List Shape)
| optional (shape : Shape)
deriving Inhabited

namespace Shape

/- The greatest integer of a shape without upper bound. -/
def greatestInteger : Int := 0x7fffffff

/- The least integer of a shape without lower bound. -/
def leastInteger : Int := -0x80000000

/- The greatest count of a list without upper bound. -/
def greatestCount : Nat := 0xffffffffffffffff

/- An integer from a bound on. -/
def integerAtLeast (least : Int) : Shape :=
  .integer least greatestInteger

/- An integer of 32 bits. -/
def anyInteger : Shape :=
  .integer leastInteger greatestInteger

/- A list of any length. -/
def list (item : Shape) : Shape :=
  .listOf item 0 greatestCount

/- A field with the shape may be absent. -/
def isOptional : Shape → Bool
| .optional _ => true
| _ => false

------------------------------------------------------------
-- Names
------------------------------------------------------------

mutual

/- How a shape is named. -/
def describe : Shape → String
| .any => "any"
| .anyString => "string"
| .exact text => "'" ++ text ++ "'"
| .pattern p => "/" ++ p.source ++ "/"
| .integer least greatest =>
    "integer " ++ Text.ofInteger least ++ "..=" ++
      Text.ofInteger greatest
| .boolean => "boolean"
| .listOf item _ _ => "list of " ++ describe item
| .dictOf key value =>
    "dict of " ++ describe key ++ " -> " ++ describe value
| .object name _ => name
| .oneOf alternatives =>
    "one of [" ++ ", ".intercalate (describeAll alternatives)
      ++ "]"
| .optional shape => "optional " ++ describe shape

/- How shapes are named. -/
def describeAll : List Shape → List String
| [] => []
| shape :: shapes => describe shape :: describeAll shapes

end

end Shape

------------------------------------------------------------
-- Errors
------------------------------------------------------------

/- How and where a value departs from a shape. -/
inductive ShapeError where
| mismatch (path : Path) (expected found : String)
| missingField (path : Path) (object field : String)
| unexpectedField (path : Path) (field : String)
| noAlternative (path : Path) (count : Nat)
deriving DecidableEq, Repr

namespace ShapeError

/- Where a value departs from a shape. -/
def path : ShapeError → Path
| .mismatch path _ _ => path
| .missingField path _ _ => path
| .unexpectedField path _ => path
| .noAlternative path _ => path

/- The same error in a value that lies below some steps. -/
def under (above : Path) : ShapeError → ShapeError
| .mismatch path expected found =>
    .mismatch (above ++ path) expected found
| .missingField path object field =>
    .missingField (above ++ path) object field
| .unexpectedField path field =>
    .unexpectedField (above ++ path) field
| .noAlternative path count =>
    .noAlternative (above ++ path) count

/- The wording of an error. -/
def message : ShapeError → String
| .mismatch path expected found =>
    Path.render path ++ ": expected " ++ expected ++
      ", found " ++ found
| .missingField path object field =>
    Path.render path ++ ": " ++ object ++
      " is missing required field '" ++ field ++ "'"
| .unexpectedField path field =>
    Path.render path ++ ": unexpected field '" ++ field ++
      "'"
| .noAlternative path count =>
    Path.render path ++ ": value matches none of the " ++
      Text.ofNatural count ++ " allowed shapes"

end ShapeError

end SignedMetadata
