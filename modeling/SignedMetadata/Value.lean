import SignedMetadata.Members

/-
  Structured values that have a canonical text.

  A value is null, a boolean, an integer, a string, a
  sequence or a mapping with string keys.  There are no
  floating-point numbers.  A well-formed value has integers
  of 128 bits and mappings in strictly ascending key order;
  every operation that builds values keeps this.
-/

namespace SignedMetadata

------------------------------------------------------------
-- Values
------------------------------------------------------------

/- A closed tree of data without floating-point numbers. -/
inductive Value where
| null
| bool (b : Bool)
| integer (i : Int)
| string (s : String)
| sequence (items : List Value)
| mapping (members : List (String × Value))
deriving Repr, Inhabited

/- The six kinds of values. -/
inductive Kind where
| null
| bool
| integer
| string
| sequence
| mapping
deriving DecidableEq, Repr

/- The name of a kind in diagnostics. -/
def Kind.name : Kind → String
| .null => "null"
| .bool => "boolean"
| .integer => "integer"
| .string => "string"
| .sequence => "sequence"
| .mapping => "mapping"

------------------------------------------------------------
-- Parts of a Value
------------------------------------------------------------

namespace Value

/- The kind of a value. -/
def kind : Value → Kind
| .null => .null
| .bool _ => .bool
| .integer _ => .integer
| .string _ => .string
| .sequence _ => .sequence
| .mapping _ => .mapping

/- The value is null. -/
def isNull : Value → Bool
| .null => true
| _ => false

/- The boolean, if the value is one. -/
def bool? : Value → Option Bool
| .bool b => some b
| _ => none

/- The integer, if the value is one. -/
def integer? : Value → Option Int
| .integer i => some i
| _ => none

/- The text, if the value is a string. -/
def string? : Value → Option String
| .string s => some s
| _ => none

/- The elements, if the value is a sequence. -/
def items? : Value → Option (List Value)
| .sequence items => some items
| _ => none

/- The members, if the value is a mapping. -/
def members? : Value → Option (Members Value)
| .mapping members => some members
| _ => none

/- What a key is bound to, if the value is a mapping. -/
def get? (value : Value) (key : String) : Option Value :=
  value.members?.bind fun members => members.find? key

/- The mapping that pairs build when inserted in order. -/
def ofPairs (pairs : List (String × Value)) : Value :=
  .mapping (Members.ofList pairs)

end Value

------------------------------------------------------------
-- Equality
------------------------------------------------------------

namespace Value

mutual

/- Two values are the same tree. -/
def same : Value → Value → Bool
| .null, .null => true
| .bool a, .bool b => a == b
| .integer i, .integer j => i == j
| .string s, .string t => s == t
| .sequence vs, .sequence ws => sameItems vs ws
| .mapping ms, .mapping ns => sameMembers ms ns
| _, _ => false

/- Two lists of elements agree at every position. -/
def sameItems : List Value → List Value → Bool
| [], [] => true
| v :: vs, w :: ws => same v w && sameItems vs ws
| _, _ => false

/- Two lists of members agree at every position. -/
def sameMembers :
    List (String × Value) → List (String × Value) → Bool
| [], [] => true
| (k, v) :: ms, (l, w) :: ns =>
    k == l && same v w && sameMembers ms ns
| _, _ => false

end

mutual

/- Only equal values are the same tree. -/
theorem same_iff (v w : Value) :
    same v w = true ↔ v = w := by
  cases v <;> cases w <;>
    simp [same, sameItems_iff, sameMembers_iff]

/- Only equal element lists agree. -/
theorem sameItems_iff (vs ws : List Value) :
    sameItems vs ws = true ↔ vs = ws := by
  cases vs with
  | nil => cases ws <;> simp [sameItems]
  | cons v vs =>
      cases ws with
      | nil => simp [sameItems]
      | cons w ws =>
          simp [sameItems, same_iff v w,
            sameItems_iff vs ws]

/- Only equal member lists agree. -/
theorem sameMembers_iff (ms ns : List (String × Value)) :
    sameMembers ms ns = true ↔ ms = ns := by
  cases ms with
  | nil => cases ns <;> simp [sameMembers]
  | cons m ms =>
      obtain ⟨k, v⟩ := m
      cases ns with
      | nil => simp [sameMembers]
      | cons n ns =>
          obtain ⟨l, w⟩ := n
          simp [sameMembers, same_iff v w,
            sameMembers_iff ms ns, and_assoc]

end

instance : DecidableEq Value := fun v w =>
  decidable_of_iff _ (same_iff v w)

end Value

------------------------------------------------------------
-- Well-Formed Values
------------------------------------------------------------

namespace Value

/- The least integer of a value, -2^127. -/
def minInteger : Int :=
  -0x80000000000000000000000000000000

/- The greatest integer of a value, 2^127 - 1. -/
def maxInteger : Int :=
  0x7fffffffffffffffffffffffffffffff

/- The integer has at most 128 bits in two's complement. -/
def InRange (i : Int) : Prop :=
  minInteger ≤ i ∧ i ≤ maxInteger

instance (i : Int) : Decidable (InRange i) := by
  unfold InRange
  infer_instance

mutual

/-
  Every integer is in range and the keys of every mapping
  are strictly ascending.
-/
def WellFormed : Value → Prop
| .null => True
| .bool _ => True
| .integer i => InRange i
| .string _ => True
| .sequence items => WellFormedItems items
| .mapping members =>
    Members.Ascending members ∧ WellFormedMembers members

/- Every element is well formed. -/
def WellFormedItems : List Value → Prop
| [] => True
| v :: vs => WellFormed v ∧ WellFormedItems vs

/- Every member value is well formed. -/
def WellFormedMembers : List (String × Value) → Prop
| [] => True
| (_, v) :: ms => WellFormed v ∧ WellFormedMembers ms

end

end Value

------------------------------------------------------------
-- Container Nesting
------------------------------------------------------------

namespace Value

mutual

/- How many containers enclose the innermost part. -/
def depth : Value → Nat
| .null => 0
| .bool _ => 0
| .integer _ => 0
| .string _ => 0
| .sequence items => 1 + depthItems items
| .mapping members => 1 + depthMembers members

/- The greatest depth of an element. -/
def depthItems : List Value → Nat
| [] => 0
| v :: vs => max (depth v) (depthItems vs)

/- The greatest depth of a member value. -/
def depthMembers : List (String × Value) → Nat
| [] => 0
| (_, v) :: ms => max (depth v) (depthMembers ms)

end

end Value

end SignedMetadata
