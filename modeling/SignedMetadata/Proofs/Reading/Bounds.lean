import SignedMetadata.Proofs.Json.Tokens
import SignedMetadata.Proofs.Reading.Agreement
import SignedMetadata.Proofs.Reading.Literals
import SignedMetadata.Proofs.Value.Containers
import SignedMetadata.Proofs.Value.Parts

/-
  What is known of everything that is read.

  A value that is read is well formed; it nests at most as
  deep as the tree it is read from, and within the limit that
  it is converted under.

  Main declarations:
    * `Value.Within`
    * `Value.within_of_ofTree`
    * `Value.within_of_ofJsonAt`
-/

namespace SignedMetadata

open Fallible

------------------------------------------------------------
-- Resolved Trees
------------------------------------------------------------

namespace Json

namespace Tree

mutual

/- Resolving a tree does not make it deeper. -/
theorem depth_resolved_le (tree : Tree) :
    tree.resolved.depth ≤ tree.depth := by
  cases tree with
  | array items closed =>
      have hItems := depthItems_resolvedItems_le items
      rw [resolved, depth, depth]
      omega
  | object members closed =>
      by_cases hPlain : PassesLiteral members
      · cases members with
        | nil => exact absurd hPlain (Option.not_mem_none _)
        | cons member rest =>
            rw [passesLiteral_cons] at hPlain
            rw [resolved, if_pos hPlain]
            cases hTree : member.2 with
            | string text =>
                rw [passedNumber]
                cases literal text with
                | ok digits => exact Nat.zero_le _
                | error fault => exact Nat.zero_le _
            | _ => exact Nat.zero_le _
      · have hMembers :=
          depthMembers_resolvedMembers_le members
        rw [resolved_object hPlain, depth, depth]
        omega
  | _ => exact Nat.le_refl _

/- Resolving elements does not make them deeper. -/
theorem depthItems_resolvedItems_le (trees : List Tree) :
    depthItems (resolvedItems trees) ≤ depthItems trees := by
  cases trees with
  | nil => exact Nat.le_refl _
  | cons tree trees =>
      have hTree := depth_resolved_le tree
      have hRest := depthItems_resolvedItems_le trees
      rw [resolvedItems, depthItems, depthItems]
      omega

/- Resolving members does not make them deeper. -/
theorem depthMembers_resolvedMembers_le
    (members : List (String × Tree)) :
    depthMembers (resolvedMembers members) ≤
      depthMembers members := by
  cases members with
  | nil => exact Nat.le_refl _
  | cons member rest =>
      have hTree := depth_resolved_le member.2
      have hRest := depthMembers_resolvedMembers_le rest
      rw [resolvedMembers, depthMembers, depthMembers]
      omega

end

end Tree

end Json

------------------------------------------------------------
-- Values within Bounds
------------------------------------------------------------

namespace Value

open Json (Tree)

/- The value is well formed and at most so deep. -/
def Within (depth : Nat) (v : Value) : Prop :=
  v.WellFormed ∧ v.depth ≤ depth

variable {v : Value}
variable {vs : List Value}
variable {ms : Members Value}
variable {n : Nat}

/- A value is within every greater bound. -/
theorem Within.mono
    {m : Nat}
    (hWithin : v.Within n)
    (hBound : n ≤ m) :
    v.Within m := by
  exact ⟨hWithin.1, hWithin.2.trans hBound⟩

/- A sequence is one level deeper than its elements. -/
theorem within_sequence
    (hVs : ∀ v ∈ vs, v.Within n) :
    (sequence vs).Within (1 + n) := by
  induction vs with
  | nil => exact ⟨trivial, Nat.le_add_right 1 n⟩
  | cons v vs ih =>
      have hHead := hVs v List.mem_cons_self
      have hRest :=
        ih fun w hw => hVs w (List.mem_cons_of_mem v hw)
      refine ⟨⟨hHead.1, hRest.1⟩, ?_⟩
      have hDepth := hRest.2
      rw [depth] at hDepth ⊢
      rw [depthItems]
      have hFirst := hHead.2
      omega

/- A mapping is one level deeper than its member values. -/
theorem within_mapping
    (hAscending : Members.Ascending ms)
    (hMs : ∀ m ∈ ms, m.2.Within n) :
    (mapping ms).Within (1 + n) := by
  have hWell : WellFormedMembers ms := by
    rw [wellFormedMembers_iff]
    intro m hm
    exact (hMs m hm).1
  have hDepth : depthMembers ms ≤ n := by
    rw [depthMembers_le_iff]
    intro m hm
    exact (hMs m hm).2
  refine ⟨⟨hAscending, hWell⟩, ?_⟩
  rw [depth]
  omega

------------------------------------------------------------
-- Direct Reading
------------------------------------------------------------

mutual

/- A value that is read is no deeper than its tree. -/
theorem within_of_ofTree
    (tree : Tree)
    {v : Value}
    (hValue : ofTree tree = .ok v) :
    v.Within tree.depth := by
  cases tree with
  | null =>
      cases hValue
      exact ⟨trivial, Nat.le_refl 0⟩
  | bool b =>
      cases hValue
      exact ⟨trivial, Nat.le_refl 0⟩
  | number literal =>
      rcases ofTree_number_iff.mp hValue with
        ⟨i, hInteger, rfl⟩
      have hRange := (integerOfLiteral_eq_ok_iff.mp hInteger).2
      exact ⟨hRange, Nat.le_refl 0⟩
  | string text =>
      cases hValue
      exact ⟨trivial, Nat.le_refl 0⟩
  | array items closed =>
      rcases ofTree_array_iff.mp hValue with
        ⟨vs, hVs, _, rfl⟩
      exact within_sequence (within_of_ofTrees items hVs)
  | object members closed =>
      rcases ofTree_object_iff.mp hValue with
        ⟨_, ms, hMs, _, rfl⟩
      rcases within_of_ofMemberTrees members
          Members.ascending_nil
          (fun m hm => absurd hm List.not_mem_nil)
          (Nat.le_refl (Tree.depthMembers members)) hMs with
        ⟨hAscending, hWithin⟩
      exact within_mapping hAscending hWithin
  | broken => cases hValue

/- Elements that are read are no deeper than their trees. -/
theorem within_of_ofTrees
    (trees : List Tree)
    {vs : List Value}
    (hVs : ofTrees trees = .ok vs) :
    ∀ v ∈ vs, v.Within (Tree.depthItems trees) := by
  cases trees with
  | nil =>
      cases hVs
      intro v hv
      exact absurd hv List.not_mem_nil
  | cons tree trees =>
      rcases ofTrees_cons_iff.mp hVs with
        ⟨first, hFirst, rest, hRest, rfl⟩
      intro v hv
      rw [Tree.depthItems]
      rcases List.mem_cons.mp hv with rfl | hv
      · exact
          (within_of_ofTree tree hFirst).mono
            (Nat.le_max_left _ _)
      · exact
          (within_of_ofTrees trees hRest v hv).mono
            (Nat.le_max_right _ _)

/- Members that are read, behind members within bounds. -/
theorem within_of_ofMemberTrees
    (members : List (String × Tree))
    {n : Nat}
    {read ms : Members Value}
    (hAscending : Members.Ascending read)
    (hRead : ∀ m ∈ read, m.2.Within n)
    (hDepth : Tree.depthMembers members ≤ n)
    (hMs : ofMemberTrees read members = .ok ms) :
    Members.Ascending ms ∧ ∀ m ∈ ms, m.2.Within n := by
  cases members with
  | nil =>
      cases hMs
      exact ⟨hAscending, hRead⟩
  | cons member rest =>
      rcases ofMemberTrees_cons_iff.mp hMs with
        ⟨v, hValue, _, hRest⟩
      rw [Tree.depthMembers] at hDepth
      have hWithin : v.Within n :=
        (within_of_ofTree member.2 hValue).mono (by omega)
      exact
        within_of_ofMemberTrees rest
          (Members.ascending_insert hAscending)
          (Members.forall_mem_insert hRead hWithin) (by omega) hRest

end

/- Every value that is read from a text is well formed. -/
theorem wellFormed_of_ofText
    {text : String}
    (hValue : ofText text = .ok v) :
    v.WellFormed := by
  have hRoot := (ofText_eq_ok_iff.mp hValue).2
  exact (within_of_ofTree _ hRoot).1

------------------------------------------------------------
-- Conversion
------------------------------------------------------------

variable {limits : Limits}

/- There is room for a container that may be entered. -/
theorem room_of_lt
    {path : Path}
    (hPath : path.length < limits.maxDepth) :
    limits.maxDepth - path.length =
      1 + (limits.maxDepth - (path.length + 1)) := by
  omega

mutual

/- A value that is converted stays within the limit. -/
theorem within_of_ofJsonAt
    (path : Path)
    (json : Json)
    {v : Value}
    (hValue : ofJsonAt limits path json = .ok v) :
    v.Within (limits.maxDepth - path.length) := by
  cases json with
  | null =>
      cases hValue
      exact ⟨trivial, Nat.zero_le _⟩
  | bool b =>
      cases hValue
      exact ⟨trivial, Nat.zero_le _⟩
  | number literal =>
      rcases ofJsonAt_number_iff.mp hValue with
        ⟨i, hInteger, rfl⟩
      have hRange := (integerOfLiteral_eq_ok_iff.mp hInteger).2
      exact ⟨hRange, Nat.zero_le _⟩
  | string text =>
      cases hValue
      exact ⟨trivial, Nat.zero_le _⟩
  | array items =>
      rcases ofJsonAt_array_iff.mp hValue with
        ⟨hPath, vs, hVs, rfl⟩
      rw [room_of_lt hPath]
      exact
        within_sequence
          (within_of_ofJsonItems path 0 items hVs)
  | object members =>
      rw [ofJsonAt, check_eq_ok_iff, enter_eq_ok_iff,
        bind_eq_ok_iff] at hValue
      rcases hValue with ⟨hPath, ms, hMs, hMapping⟩
      cases hMapping
      rcases within_of_ofJsonMembers path members
          Members.ascending_nil
          (fun m hm => absurd hm List.not_mem_nil) hMs with
        ⟨hAscending, hWithin⟩
      rw [room_of_lt hPath]
      exact within_mapping hAscending hWithin

/- Elements that are converted stay within the limit. -/
theorem within_of_ofJsonItems
    (path : Path)
    (position : Nat)
    (items : List Json)
    {vs : List Value}
    (hVs :
      ofJsonItems limits path position items = .ok vs) :
    ∀ v ∈ vs,
      v.Within (limits.maxDepth - (path.length + 1)) := by
  cases items with
  | nil =>
      cases hVs
      intro v hv
      exact absurd hv List.not_mem_nil
  | cons json items =>
      rcases ofJsonItems_cons_iff.mp hVs with
        ⟨first, hFirst, rest, hRest, rfl⟩
      have hHead :=
        within_of_ofJsonAt (path.index position) json hFirst
      rw [length_index] at hHead
      intro v hv
      rcases List.mem_cons.mp hv with rfl | hv
      · exact hHead
      · exact
          within_of_ofJsonItems path (position + 1) items
            hRest v hv

/- Members that are converted, behind members within it. -/
theorem within_of_ofJsonMembers
    (path : Path)
    (members : List (String × Json))
    {read ms : Members Value}
    (hAscending : Members.Ascending read)
    (hRead :
      ∀ m ∈ read,
        m.2.Within (limits.maxDepth - (path.length + 1)))
    (hMs : ofJsonMembers limits path read members = .ok ms) :
    Members.Ascending ms ∧
      ∀ m ∈ ms,
        m.2.Within (limits.maxDepth - (path.length + 1)) := by
  cases members with
  | nil =>
      cases hMs
      exact ⟨hAscending, hRead⟩
  | cons member rest =>
      rw [ofJsonMembers, bind_eq_ok_iff] at hMs
      rcases hMs with ⟨v, hValue, hRest⟩
      have hHead :=
        within_of_ofJsonAt (path.field member.1) member.2
          hValue
      rw [length_field] at hHead
      exact
        within_of_ofJsonMembers path rest
          (Members.ascending_insert hAscending)
          (Members.forall_mem_insert hRead hHead) hRest

end

end Value

end SignedMetadata
