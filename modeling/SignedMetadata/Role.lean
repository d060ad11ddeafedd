import SignedMetadata.Catalog

/-
  The roles that metadata belongs to.

  The member `_type` of metadata names its role.  Checking
  metadata of any role means to find the role named there
  and to check the metadata against the shape of that role.
-/

namespace SignedMetadata

------------------------------------------------------------
-- Roles
------------------------------------------------------------

/- A top-level role. -/
inductive Role where
| root
| targets
| snapshot
| timestamp
| mirrors
deriving DecidableEq, Repr

/- A name that is no role's. -/
structure UnknownRole where
  name : String
deriving DecidableEq, Repr

/- The wording for an unknown role. -/
def UnknownRole.message (unknown : UnknownRole) : String :=
  "unknown role '" ++ unknown.name ++
    "' (expected root, targets, snapshot, timestamp " ++
    "or mirrors)"

namespace Role

/- All roles. -/
def all : List Role :=
  [.root, .targets, .snapshot, .timestamp, .mirrors]

/- How metadata names a role. -/
def typeName : Role → String
| .root => "Root"
| .targets => "Targets"
| .snapshot => "Snapshot"
| .timestamp => "Timestamp"
| .mirrors => "Mirrors"

/- The role of a name, in any case of its ASCII letters. -/
def parse (text : String) : Except UnknownRole Role :=
  match all.find? fun role =>
      role.typeName.toLower = text.toLower with
  | some role => .ok role
  | none => .error ⟨text⟩

/- The shape of a role's metadata. -/
def shape : Role → Shape
| .root => Catalog.root
| .targets => Catalog.targets
| .snapshot => Catalog.snapshot
| .timestamp => Catalog.timestamp
| .mirrors => Catalog.mirrorList

------------------------------------------------------------
-- Metadata of a Role
------------------------------------------------------------

/- The role that metadata names. -/
def detect (payload : Value) : Option Role := do
  let value ← payload.get? "_type"
  let name ← value.string?
  all.find? fun role => role.typeName = name

/- Check metadata against the shape of a role. -/
def check
    (role : Role)
    (payload : Value) : Except ShapeError Unit :=
  role.shape.check payload

/- How a missing or wrong role name is reported. -/
def foundType (payload : Value) : String :=
  match payload.get? "_type" with
  | none => "nothing"
  | some (.string s) => Shape.singleQuoted s
  | some value => value.kind.name

/- Check metadata against the shape of the role it names. -/
def checkAny (payload : Value) : Except ShapeError Role :=
  match detect payload with
  | none =>
      .error <|
        .mismatch (Path.root.field "_type")
          ("one of Root, Targets, Snapshot, Timestamp, " ++
            "Mirrors")
          (foundType payload)
  | some role => do
      role.check payload
      return role

/- Check metadata against a role, or the one it names. -/
def checkExpected
    (expected : Option Role)
    (payload : Value) : Except ShapeError Role :=
  match expected with
  | some role => do
      role.check payload
      return role
  | none => checkAny payload

end Role

end SignedMetadata
