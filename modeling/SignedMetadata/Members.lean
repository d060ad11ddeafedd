/-
  Members of mappings, held in ascending key order.

  Keys are compared by code point, which is also the order
  of their UTF-8 bytes.  `Members.insert` keeps the order
  and lets a later value replace an earlier one under the
  same key; `Members.ofList` inserts one pair after another.
-/

namespace SignedMetadata

------------------------------------------------------------
-- Members
------------------------------------------------------------

/- Pairs of a key and what it is bound to. -/
abbrev Members (α : Type) := List (String × α)

namespace Members

variable {α β : Type}

/- The keys of the members, in member order. -/
def keys (members : Members α) : List String :=
  members.map Prod.fst

/- Every key is less than the keys after it. -/
def Ascending (members : Members α) : Prop :=
  (keys members).Pairwise (· < ·)

instance (members : Members α) :
    Decidable (Ascending members) := by
  unfold Ascending
  infer_instance

/- What a key is bound to. -/
def find? (members : Members α) (key : String) : Option α :=
  members.lookup key

/- Some member has the key. -/
def contains (members : Members α) (key : String) : Bool :=
  members.any fun member => member.1 = key

/-
  Bind a key, at its place in the order and in place of an
  earlier binding of the same key.
-/
def insert
    (key : String)
    (value : α) : Members α → Members α
| [] => [(key, value)]
| (k, v) :: rest =>
    if key < k then
      (key, value) :: (k, v) :: rest
    else if key = k then
      (key, value) :: rest
    else
      (k, v) :: insert key value rest

/- The members that pairs build when inserted in order. -/
def ofList (pairs : List (String × α)) : Members α :=
  pairs.foldl
    (fun members pair => insert pair.1 pair.2 members)
    []

end Members

end SignedMetadata
