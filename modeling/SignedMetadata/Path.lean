import SignedMetadata.Text.Decimal
import SignedMetadata.Text.Quoted

/-
  Locations inside structured values.

  A path lists the steps from the root to a value: the name
  of a mapping member or the position of a sequence element.
  `Path.render` writes `$` for the root, `.name` for a
  member whose name is an identifier, the quoted name in
  brackets for every other member, and the position in
  brackets for an element.
-/

namespace SignedMetadata

------------------------------------------------------------
-- Segments
------------------------------------------------------------

/- One step from a container to a value inside it. -/
inductive Segment where
| field (name : String)
| index (position : Nat)
deriving DecidableEq, Repr

namespace Segment

/- The character may start an identifier. -/
def startsName (c : Char) : Bool :=
  c.isAlpha || c = '_'

/- The character may continue an identifier. -/
def continuesName (c : Char) : Bool :=
  c.isAlphanum || c = '_' || c = '-'

/- The name is an ASCII identifier and needs no quotes. -/
def isPlain (name : String) : Bool :=
  match name.toList with
  | [] => false
  | c :: cs => startsName c && cs.all continuesName

/- The text of one step. -/
def render : Segment → String
| .field name =>
    if isPlain name then
      "." ++ name
    else
      "[" ++ Text.quoted name ++ "]"
| .index position =>
    "[" ++ Text.ofNatural position ++ "]"

end Segment

------------------------------------------------------------
-- Paths
------------------------------------------------------------

/- The steps from the root to a value, outermost first. -/
abbrev Path := List Segment

namespace Path

/- The path of the whole value. -/
def root : Path := []

/- The path of a member of the mapping at this path. -/
def field
    (path : Path)
    (name : String) : Path :=
  path ++ [.field name]

/- The path of an element of the sequence at this path. -/
def index
    (path : Path)
    (position : Nat) : Path :=
  path ++ [.index position]

/- The text of a path. -/
def render (path : Path) : String :=
  "$" ++ String.join (path.map Segment.render)

end Path

end SignedMetadata
