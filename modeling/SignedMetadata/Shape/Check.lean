import SignedMetadata.Shape.Basic

/-
  Checking values against shapes.

  `Shape.check` walks through a value as its shape says and
  reports the first departure with its path.  Lists are
  checked in order, dictionaries in key order, and objects
  in the order in which the shape names their fields.
-/

namespace SignedMetadata

namespace Shape

------------------------------------------------------------
-- Expectations
------------------------------------------------------------

/- A text between single quotes. -/
def singleQuoted (text : String) : String :=
  "'" ++ text ++ "'"

/- The text of a string. -/
def expectString
    (path : Path)
    (expected : String) :
    Value → Except ShapeError String
| .string s => .ok s
| value => .error (.mismatch path expected value.kind.name)

/- The members of a mapping. -/
def expectMapping
    (path : Path)
    (expected : String) :
    Value → Except ShapeError (Members Value)
| .mapping members => .ok members
| value => .error (.mismatch path expected value.kind.name)

/- The elements of a sequence. -/
def expectSequence
    (path : Path)
    (expected : String) :
    Value → Except ShapeError (List Value)
| .sequence items => .ok items
| value => .error (.mismatch path expected value.kind.name)

/- An integer between bounds. -/
def checkInteger
    (path : Path)
    (least greatest : Int) : Value → Except ShapeError Unit
| .integer i =>
    if least ≤ i ∧ i ≤ greatest then .ok ()
    else
      .error <|
        .mismatch path
          ("an integer in " ++ Text.ofInteger least ++
            "..=" ++ Text.ofInteger greatest)
          (Text.ofInteger i)
| value =>
    .error (.mismatch path "an integer" value.kind.name)

------------------------------------------------------------
-- Contents
------------------------------------------------------------

/- Check elements in order, the first at a position. -/
def eachItem
    (check : Path → Value → Except ShapeError Unit)
    (path : Path)
    (position : Nat) : List Value → Except ShapeError Unit
| [] => .ok ()
| v :: vs => do
    check (path.index position) v
    eachItem check path (position + 1) vs

/- Check the key and then the value of every member. -/
def eachMember
    (checkKey check : Path → Value → Except ShapeError Unit)
    (path : Path) :
    List (String × Value) → Except ShapeError Unit
| [] => .ok ()
| (k, v) :: ms => do
    checkKey (path.field k) (.string k)
    check (path.field k) v
    eachMember checkKey check path ms

------------------------------------------------------------
-- Checks
------------------------------------------------------------

mutual

/- Check a value at a path. -/
def checkAt :
    Shape → Path → Value → Except ShapeError Unit
| .any, _, _ => .ok ()
| .anyString, path, value => do
    let _ ← expectString path "a string" value
| .exact text, path, value => do
    let s ← expectString path (singleQuoted text) value
    if s = text then .ok ()
    else
      .error <|
        .mismatch path (singleQuoted text) (singleQuoted s)
| .pattern p, path, value => do
    let expected := "a string matching /" ++ p.source ++ "/"
    let s ← expectString path expected value
    if p.accepts s then .ok ()
    else .error (.mismatch path expected (singleQuoted s))
| .integer least greatest, path, value =>
    checkInteger path least greatest value
| .boolean, path, value =>
    match value with
    | .bool _ => .ok ()
    | value =>
        .error (.mismatch path "a boolean" value.kind.name)
| .listOf item least greatest, path, value => do
    let items ← expectSequence path "a sequence" value
    if items.length < least ∨ greatest < items.length then
      .error <|
        .mismatch path
          ("between " ++ Text.ofNatural least ++ " and " ++
            Text.ofNatural greatest ++ " elements")
          (Text.ofNatural items.length ++ " elements")
    else
      eachItem (checkAt item) path 0 items
| .dictOf key value, path, v => do
    let members ← expectMapping path "a mapping" v
    eachMember (checkAt key) (checkAt value) path members
| .object name fields, path, value => do
    let members ← expectMapping path name value
    checkFields path name members fields
| .oneOf alternatives, path, value =>
    if anyMatches path value alternatives then .ok ()
    else .error (.noAlternative path alternatives.length)
| .optional shape, path, value => checkAt shape path value

/- Check the named fields of an object, in order. -/
def checkFields
    (path : Path)
    (name : String)
    (members : Members Value) :
    List (String × Shape) → Except ShapeError Unit
| [] => .ok ()
| (field, shape) :: rest => do
    match members.find? field with
    | some value => checkAt shape (path.field field) value
    | none =>
        if !shape.isOptional then
          .error (.missingField path name field)
    checkFields path name members rest

/- Some shape of a list accepts the value. -/
def anyMatches
    (path : Path)
    (value : Value) : List Shape → Bool
| [] => false
| shape :: shapes =>
    (checkAt shape path value).isOk ||
      anyMatches path value shapes

end

/- Check a value as a whole. -/
def check
    (shape : Shape)
    (value : Value) : Except ShapeError Unit :=
  shape.checkAt Path.root value

/- The value has the shape. -/
def accepts (shape : Shape) (value : Value) : Bool :=
  (shape.check value).isOk

end Shape

end SignedMetadata
