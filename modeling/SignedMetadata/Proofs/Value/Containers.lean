import SignedMetadata.Path
import SignedMetadata.Value

/-
  Where the containers of a value stand.

  The containers are listed by their paths in preorder: a
  container before what it holds, elements by position and
  members in member order, which is key order in well-formed
  values.  A value nests deeper than a bound exactly if some
  container has a path as long as the bound.

  Main declarations:
    * `Value.containers`
    * `Value.firstContainerAt`
    * `Value.firstContainerAt_eq_none_iff`
-/

namespace SignedMetadata

namespace Value

------------------------------------------------------------
-- Containers in Preorder
------------------------------------------------------------

mutual

/- The paths of the containers in a value at a path. -/
def containers (path : Path) : Value → List Path
| .null => []
| .bool _ => []
| .integer _ => []
| .string _ => []
| .sequence items => path :: itemContainers path 0 items
| .mapping members => path :: memberContainers path members

/- The paths in elements, the first at a position. -/
def itemContainers
    (path : Path)
    (position : Nat) : List Value → List Path
| [] => []
| v :: vs =>
    containers (path.index position) v ++
      itemContainers path (position + 1) vs

/- The paths in members. -/
def memberContainers
    (path : Path) : List (String × Value) → List Path
| [] => []
| (k, v) :: ms =>
    containers (path.field k) v ++ memberContainers path ms

end

/- The first of some places that is so far from the root. -/
def firstAt
    (distance : Nat)
    (places : List Path) : Option Path :=
  places.find? fun place => place.length = distance

/-
  The first container in preorder that lies so many segments
  below the root.
-/
def firstContainerAt
    (distance : Nat)
    (value : Value) : Option Path :=
  firstAt distance (containers Path.root value)

------------------------------------------------------------
-- First Places
------------------------------------------------------------

/- No place is the first of none. -/
@[simp] theorem firstAt_nil (distance : Nat) :
    firstAt distance [] = none := by
  rfl

/- The first place is the head, if it lies there. -/
theorem firstAt_cons
    (distance : Nat)
    (place : Path)
    (places : List Path) :
    firstAt distance (place :: places) =
      if place.length = distance then some place
      else firstAt distance places := by
  by_cases hHere : place.length = distance
  · simp [firstAt, hHere]
  · simp [firstAt, hHere]

/- The first place of joined lists is sought in turn. -/
theorem firstAt_append
    (distance : Nat)
    (places others : List Path) :
    firstAt distance (places ++ others) =
      (firstAt distance places).or
        (firstAt distance others) := by
  simp [firstAt, List.find?_append]

/- Joined lists lack such a place if both do. -/
theorem firstAt_append_eq_none_iff
    {distance : Nat}
    {places others : List Path} :
    firstAt distance (places ++ others) = none ↔
      firstAt distance places = none ∧
        firstAt distance others = none := by
  simp [firstAt_append]

------------------------------------------------------------
-- Depth
------------------------------------------------------------

/- A path to an element is longer by one. -/
@[simp] theorem length_index
    (path : Path)
    (position : Nat) :
    (path.index position).length = path.length + 1 := by
  simp [Path.index]

/- A path to a member is longer by one. -/
@[simp] theorem length_field
    (path : Path)
    (name : String) :
    (path.field name).length = path.length + 1 := by
  simp [Path.field]

mutual

/- A value at a path reaches a distance by its depth. -/
theorem firstAt_containers_eq_none_iff
    {distance : Nat}
    (path : Path)
    (v : Value)
    (hPath : path.length ≤ distance) :
    firstAt distance (containers path v) = none ↔
      path.length + v.depth ≤ distance := by
  cases v with
  | null => simpa [containers, depth] using hPath
  | bool b => simpa [containers, depth] using hPath
  | integer i => simpa [containers, depth] using hPath
  | string s => simpa [containers, depth] using hPath
  | sequence items =>
      rw [containers, firstAt_cons, depth]
      by_cases hHere : path.length = distance
      · simp only [hHere, if_true, reduceCtorEq, false_iff]
        omega
      · rw [if_neg hHere,
          firstAt_itemContainers_eq_none_iff path 0 items
            (by omega)]
        omega
  | mapping members =>
      rw [containers, firstAt_cons, depth]
      by_cases hHere : path.length = distance
      · simp only [hHere, if_true, reduceCtorEq, false_iff]
        omega
      · rw [if_neg hHere,
          firstAt_memberContainers_eq_none_iff path members
            (by omega)]
        omega

/- Elements reach a distance by the deepest of them. -/
theorem firstAt_itemContainers_eq_none_iff
    {distance : Nat}
    (path : Path)
    (position : Nat)
    (vs : List Value)
    (hPath : path.length < distance) :
    firstAt distance (itemContainers path position vs) =
        none ↔
      path.length + 1 + depthItems vs ≤ distance := by
  cases vs with
  | nil =>
      simp only [itemContainers, depthItems, firstAt_nil,
        true_iff]
      omega
  | cons v vs =>
      have hInside :
          (path.index position).length ≤ distance := by
        rw [length_index]
        exact hPath
      have hHead :=
        firstAt_containers_eq_none_iff
          (path.index position) v hInside
      have hTail :=
        firstAt_itemContainers_eq_none_iff path
          (position + 1) vs hPath
      rw [itemContainers, firstAt_append_eq_none_iff, hHead,
        hTail, length_index, depthItems]
      omega

/- Members reach a distance by the deepest of them. -/
theorem firstAt_memberContainers_eq_none_iff
    {distance : Nat}
    (path : Path)
    (ms : List (String × Value))
    (hPath : path.length < distance) :
    firstAt distance (memberContainers path ms) = none ↔
      path.length + 1 + depthMembers ms ≤ distance := by
  cases ms with
  | nil =>
      simp only [memberContainers, depthMembers,
        firstAt_nil, true_iff]
      omega
  | cons member ms =>
      rcases member with ⟨k, v⟩
      have hInside :
          (path.field k).length ≤ distance := by
        rw [length_field]
        exact hPath
      have hHead :=
        firstAt_containers_eq_none_iff (path.field k) v
          hInside
      have hTail :=
        firstAt_memberContainers_eq_none_iff path ms hPath
      rw [memberContainers, firstAt_append_eq_none_iff, hHead,
        hTail, length_field, depthMembers]
      omega

end

/- A value nests within a bound if no container is at it. -/
theorem firstContainerAt_eq_none_iff
    (distance : Nat)
    (v : Value) :
    firstContainerAt distance v = none ↔
      v.depth ≤ distance := by
  have hRoot : Path.root.length ≤ distance := Nat.zero_le _
  have hIff :=
    firstAt_containers_eq_none_iff Path.root v hRoot
  simpa [firstContainerAt, Path.root] using hIff

end Value

end SignedMetadata
