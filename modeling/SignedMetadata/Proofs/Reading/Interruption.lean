import SignedMetadata.Proofs.Json.Interruption
import SignedMetadata.Proofs.Reading.Direct

/-
  Reading what is left of a tree that was cut short.

  A reader reports the first fault in the order of the text.
  If a tree is read without a rejection, then so is every
  tree that it may be cut to, and the fault that is reported
  for this is that the text breaks off.

  Main declarations:
    * `Unrejected`
    * `Json.unrejected_of_cut`
    * `Value.unrejected_of_cut`
    * `malformed_of_interrupted`
-/

namespace SignedMetadata

open Fallible
open Json (Tree Document)
open Json.Tree (Cut CutItems CutMembers)

------------------------------------------------------------
-- Rejections
------------------------------------------------------------

/- There is no rejection; the text may still be malformed. -/
def Unrejected
    {α : Type}
    (result : Except ReadError α) : Prop :=
  ∀ cause, result ≠ .error (.rejected cause)

namespace Unrejected

variable {α β : Type}

/- A result is no rejection. -/
theorem ok (a : α) : Unrejected (.ok a) := by
  intro cause hCause
  cases hCause

/- A malformed text is not rejected. -/
theorem malformed :
    Unrejected (.error .malformed : Except ReadError α) := by
  intro cause hCause
  cases hCause

/- A rejection is one. -/
theorem not_rejected (cause : Rejection) :
    ¬ Unrejected
      (.error (.rejected cause) : Except ReadError α) := by
  intro hUnrejected
  exact hUnrejected cause rfl

/- Of two steps, neither rejects what it is given. -/
theorem bind_iff
    {first : Except ReadError α}
    {next : α → Except ReadError β} :
    Unrejected (first >>= next) ↔
      Unrejected first ∧
        ∀ a, first = .ok a → Unrejected (next a) := by
  cases first with
  | ok a =>
      constructor
      · intro hNext
        refine ⟨ok a, fun b hFirst => ?_⟩
        cases hFirst
        exact hNext
      · rintro ⟨_, hNext⟩
        exact hNext a rfl
  | error cause =>
      constructor
      · intro hFirst
        refine ⟨fun other hOther => ?_, ?_⟩
        · cases hOther
          exact hFirst other rfl
        · rintro _ ⟨⟩
      · rintro ⟨hFirst, _⟩ other hOther
        cases hOther
        exact hFirst other rfl

/- The end of a container rejects nothing. -/
theorem whenClosed
    (closed : Bool)
    (result : α) :
    Unrejected (Json.whenClosed closed result) := by
  cases closed with
  | false => exact malformed
  | true => exact ok result

/- So only what was read inside it can be rejected. -/
theorem bind_whenClosed_iff
    {first : Except ReadError α}
    {closed : Bool}
    {make : α → β} :
    Unrejected
        (first >>= fun a => Json.whenClosed closed (make a)) ↔
      Unrejected first := by
  rw [bind_iff]
  exact and_iff_left fun a _ => whenClosed closed (make a)

/- A guard that did not fail rejects nothing. -/
theorem guard_iff
    {fails : Prop}
    [Decidable fails]
    {cause : Rejection}
    {next : PUnit → Except ReadError β} :
    Unrejected
        (if fails then
            (.error (.rejected cause) : Except _ PUnit) >>=
              next
          else next PUnit.unit) ↔
      ¬ fails ∧ Unrejected (next PUnit.unit) := by
  by_cases hFails : fails
  · rw [if_pos hFails]
    constructor
    · intro hCause
      exact absurd hCause (not_rejected cause)
    · rintro ⟨hPasses, _⟩
      exact absurd hFails hPasses
  · rw [if_neg hFails]
    exact (and_iff_right hFails).symm

/- What has no result and is not rejected is malformed. -/
theorem eq_malformed
    {result : Except ReadError α}
    (hUnrejected : Unrejected result)
    (hNone : ∀ a, result ≠ .ok a) :
    result = .error .malformed := by
  cases result with
  | ok a => exact absurd rfl (hNone a)
  | error cause =>
      cases cause with
      | malformed => rfl
      | rejected cause =>
          exact absurd rfl (hUnrejected cause)

/- A value that has the wrong type stays one when cut. -/
theorem reject_of_cut
    {wide : Found}
    {expected : String}
    {read tree : Tree}
    (hCut : Cut read tree)
    (hTree :
      Unrejected
        (tree.reject wide expected : Except ReadError α)) :
    Unrejected
      (read.reject wide expected : Except ReadError α) := by
  cases hCut with
  | whole => exact hTree
  | broken => exact malformed
  | array closed hItems => exact absurd rfl (hTree _)
  | object closed hMembers => exact absurd rfl (hTree _)

end Unrejected

------------------------------------------------------------
-- Data
------------------------------------------------------------

namespace Json

/- A literal that was cut short is not rejected. -/
theorem unrejected_ofLiteralValue_of_cut
    {read tree : Tree}
    (hCut : Cut read tree)
    (hTree : Unrejected (ofLiteralValue tree)) :
    Unrejected (ofLiteralValue read) := by
  cases hCut with
  | whole => exact hTree
  | broken => exact Unrejected.malformed
  | array closed hItems => exact absurd rfl (hTree _)
  | object closed hMembers => exact absurd rfl (hTree _)

/- Other members are read one by one. -/
theorem ofTree_object_cons
    {key : String}
    {tree : Tree}
    {rest : List (String × Tree)}
    {closed : Bool}
    (hOther : key ≠ literalKey) :
    ofTree (.object ((key, tree) :: rest) closed) =
      (do
        let members ← ofMembers [] ((key, tree) :: rest)
        whenClosed closed (.object members)) := by
  rw [ofTree, if_neg hOther, ofMembers, bind_assoc]
  rfl

mutual

/- Data that was cut short is not rejected. -/
theorem unrejected_of_cut
    {read tree : Tree}
    (hCut : Cut read tree)
    (hTree : Unrejected (ofTree tree)) :
    Unrejected (ofTree read) := by
  cases hCut with
  | whole => exact hTree
  | broken => exact Unrejected.malformed
  | array closed hItems =>
      rw [ofTree, Unrejected.bind_whenClosed_iff] at hTree ⊢
      exact unrejectedItems_of_cut hItems hTree
  | object closed hMembers =>
      rcases hMembers.eq_nil_or_cons with
        rfl | ⟨key, first, more, whole, rest, rfl, rfl, hFirst⟩
      · exact Unrejected.whenClosed false _
      · by_cases hLiteral : key = literalKey
        · rw [ofTree, if_pos hLiteral,
            Unrejected.bind_whenClosed_iff] at hTree ⊢
          exact
            unrejected_ofLiteralValue_of_cut hFirst hTree
        · rw [ofTree_object_cons hLiteral,
            Unrejected.bind_whenClosed_iff] at hTree ⊢
          exact unrejectedMembers_of_cut hMembers hTree

/- Elements that were cut short are not rejected. -/
theorem unrejectedItems_of_cut
    {read trees : List Tree}
    (hCut : CutItems read trees)
    (hTrees : Unrejected (ofTrees trees)) :
    Unrejected (ofTrees read) := by
  cases hCut with
  | none => exact Unrejected.ok []
  | last rest hTree =>
      rw [ofTrees, Unrejected.bind_iff] at hTrees ⊢
      refine
        ⟨unrejected_of_cut hTree hTrees.1, fun json _ => ?_⟩
      exact Unrejected.ok [json]
  | next tree hRest =>
      rw [ofTrees, Unrejected.bind_iff] at hTrees ⊢
      refine ⟨hTrees.1, fun json hJson => ?_⟩
      have hMore := hTrees.2 json hJson
      rw [Unrejected.bind_iff] at hMore ⊢
      exact
        ⟨unrejectedItems_of_cut hRest hMore.1,
          fun _ _ => Unrejected.ok _⟩

/- Members that were cut short are not rejected. -/
theorem unrejectedMembers_of_cut
    {before : Members Json}
    {read members : List (String × Tree)}
    (hCut : CutMembers read members)
    (hMembers : Unrejected (ofMembers before members)) :
    Unrejected (ofMembers before read) := by
  cases hCut with
  | none => exact Unrejected.ok before
  | last key rest hTree =>
      rw [ofMembers, Unrejected.bind_iff] at hMembers ⊢
      exact
        ⟨unrejected_of_cut hTree hMembers.1,
          fun _ _ => Unrejected.ok _⟩
  | next member hRest =>
      rw [ofMembers, Unrejected.bind_iff] at hMembers ⊢
      exact
        ⟨hMembers.1, fun json hJson =>
          unrejectedMembers_of_cut hRest
            (hMembers.2 json hJson)⟩

end

end Json

------------------------------------------------------------
-- Values
------------------------------------------------------------

namespace Value

/- Other members are read one by one. -/
theorem ofTree_object_cons
    {key : String}
    {tree : Tree}
    {rest : List (String × Tree)}
    {closed : Bool}
    (hOther : key ≠ literalKey) :
    ofTree (.object ((key, tree) :: rest) closed) =
      (do
        let members ← ofMemberTrees [] ((key, tree) :: rest)
        Json.whenClosed closed (.mapping members)) := by
  rw [ofTree, if_neg hOther, ofMemberTrees, bind_assoc]
  rfl

/- A value is read directly from a complete tree only. -/
theorem complete_of_ofTree
    {tree : Tree}
    {v : Value}
    (hValue : ofTree tree = .ok v) :
    tree.Complete := by
  have hKeys := (accepted_of_ofTree tree hValue).1
  exact ((Json.checkKeys_eq_ok_iff tree).mp hKeys).1

mutual

/- A value that was cut short is not rejected. -/
theorem unrejected_of_cut
    {read tree : Tree}
    (hCut : Cut read tree)
    (hTree : Unrejected (ofTree tree)) :
    Unrejected (ofTree read) := by
  cases hCut with
  | whole => exact hTree
  | broken => exact Unrejected.malformed
  | array closed hItems =>
      rw [ofTree, Unrejected.bind_whenClosed_iff] at hTree ⊢
      exact unrejectedItems_of_cut hItems hTree
  | object closed hMembers =>
      rcases hMembers.eq_nil_or_cons with
        rfl | ⟨key, first, more, whole, rest, rfl, rfl, hFirst⟩
      · exact Unrejected.whenClosed false _
      · by_cases hLiteral : key = literalKey
        · rw [ofTree, if_pos hLiteral] at hTree ⊢
          exact Unrejected.reject_of_cut hFirst hTree
        · rw [ofTree_object_cons hLiteral,
            Unrejected.bind_whenClosed_iff] at hTree ⊢
          exact unrejectedMembers_of_cut hMembers hTree

/- Elements that were cut short are not rejected. -/
theorem unrejectedItems_of_cut
    {read trees : List Tree}
    (hCut : CutItems read trees)
    (hTrees : Unrejected (ofTrees trees)) :
    Unrejected (ofTrees read) := by
  cases hCut with
  | none => exact Unrejected.ok []
  | last rest hTree =>
      rw [ofTrees, Unrejected.bind_iff] at hTrees ⊢
      refine
        ⟨unrejected_of_cut hTree hTrees.1, fun v _ => ?_⟩
      exact Unrejected.ok [v]
  | next tree hRest =>
      rw [ofTrees, Unrejected.bind_iff] at hTrees ⊢
      refine ⟨hTrees.1, fun v hValue => ?_⟩
      have hMore := hTrees.2 v hValue
      rw [Unrejected.bind_iff] at hMore ⊢
      exact
        ⟨unrejectedItems_of_cut hRest hMore.1,
          fun _ _ => Unrejected.ok _⟩

/- Members that were cut short are not rejected. -/
theorem unrejectedMembers_of_cut
    {before : Members Value}
    {read members : List (String × Tree)}
    (hCut : CutMembers read members)
    (hMembers : Unrejected (ofMemberTrees before members)) :
    Unrejected (ofMemberTrees before read) := by
  cases hCut with
  | none => exact Unrejected.ok before
  | last key rest hTree =>
      rw [ofMemberTrees, Unrejected.bind_iff] at hMembers ⊢
      refine
        ⟨unrejected_of_cut hTree hMembers.1,
          fun v hValue => ?_⟩
      -- The key is checked after a value that was read whole.
      have hWhole :=
        hTree.eq_of_complete (complete_of_ofTree hValue)
      rw [hWhole] at hValue
      have hNew := hMembers.2 v hValue
      rw [Unrejected.guard_iff] at hNew ⊢
      exact ⟨hNew.1, Unrejected.ok _⟩
  | next member hRest =>
      rw [ofMemberTrees, Unrejected.bind_iff] at hMembers ⊢
      refine ⟨hMembers.1, fun v hValue => ?_⟩
      have hMore := hMembers.2 v hValue
      rw [Unrejected.guard_iff] at hMore ⊢
      exact
        ⟨hMore.1, unrejectedMembers_of_cut hRest hMore.2⟩

end

end Value

------------------------------------------------------------
-- Texts
------------------------------------------------------------

/-
  A reader of trees, applied to a document that was cut short
  and has no result, reports that the text is malformed.
-/
theorem malformed_of_document
    {α : Type}
    {read : Tree → Except ReadError α}
    {document : Document}
    (hComplete :
      ∀ tree a, read tree = .ok a → tree.Complete)
    (hUnrejected : Unrejected (read document.root))
    (hOpen :
      document.trailing = true ∨ ¬ document.root.Complete) :
    (do
        let result ← read document.root
        Json.whenClosed (!document.trailing) result) =
      .error .malformed := by
  apply Unrejected.eq_malformed
  · rw [Unrejected.bind_iff]
    exact ⟨hUnrejected, fun a _ => .whenClosed _ a⟩
  · intro a hRead
    rw [Json.ofDocument_eq_ok_iff] at hRead
    rcases hOpen with hTrailing | hRoot
    · rw [hTrailing] at hRead
      exact absurd hRead.1 (by simp)
    · exact hRoot (hComplete _ a hRead.2)

/-
  If the tokens of a text break off inside a string of a tree
  that has a value, both readers report a malformed text.
-/
theorem malformed_of_interrupted
    {tree : Tree}
    {v : Value}
    {text s : String}
    {before after : List Json.Token}
    (hHolds : tree.Holds v)
    (hWell : v.WellFormed)
    (hPlain : tree.Plain)
    (hDepth : v.depth ≤ Json.maxOpen)
    (hTree : tree.tokens = before ++ .string s :: after)
    (hText : Json.Token.ofText text = before ++ [.broken]) :
    Value.ofText text = .error .malformed ∧
      Json.ofText text = .error .malformed := by
  have hRoom : tree.depth ≤ Json.maxOpen := by
    rw [Tree.depth_of_holds tree hHolds]
    exact hDepth
  have hComplete := Tree.complete_of_holds tree hHolds
  rcases Tree.interrupted_tokens hComplete hRoom hTree with
    ⟨hCut, hOpen⟩
  rw [← hText] at hCut hOpen
  rcases Value.accepted_of_holds tree hHolds hWell hPlain with
    ⟨_, json, hJson, _⟩
  have hValue := Value.ofTree_of_holds hHolds hWell hPlain
  constructor
  · apply malformed_of_document
    · intro tree v hTree
      exact Value.complete_of_ofTree hTree
    · apply Value.unrejected_of_cut hCut
      rw [hValue]
      exact Unrejected.ok v
    · exact hOpen
  · apply malformed_of_document
    · intro tree json hTree
      exact Json.complete_of_ofTree tree hTree
    · apply Json.unrejected_of_cut hCut
      rw [hJson]
      exact Unrejected.ok json
    · exact hOpen

end SignedMetadata
