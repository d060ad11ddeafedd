import SignedMetadata.Proofs.Envelope.Values
import SignedMetadata.Proofs.Value.Data

/-
  Envelopes as JSON data.

  An envelope is printed with the payload in front, which is
  not its place in the value of the envelope.  The tree of
  the data holds the value all the same.  The value is as
  well formed and as plain as the payload, and nests one
  level deeper, unless the signatures nest deeper still.

  Main declarations:
    * `holds_toJson`
    * `plain_toJson`
    * `wellFormed_toValue_iff`
    * `depth_toValue`
-/

namespace SignedMetadata

open Json (Tree itemTrees)

------------------------------------------------------------
-- Records
------------------------------------------------------------

namespace Signature

/- The value of a record is well formed. -/
theorem wellFormed_toValue (signature : Signature) :
    signature.toValue.WellFormed := by
  have hAscending : fields.Pairwise (· < ·) := by decide
  exact ⟨hAscending, trivial, trivial, trivial, trivial⟩

/- The trees of the data of records hold their values. -/
theorem holds_toJson (signatures : List Signature) :
    Tree.HoldsItems
      (itemTrees
        (signatures.map fun signature =>
          signature.toValue.toJson))
      (signatures.map toValue) := by
  induction signatures with
  | nil => rfl
  | cons signature signatures ih =>
      exact ⟨_, _, Value.holds_toJson _, ih, rfl⟩

/- The tree of the list of them holds the list. -/
theorem holds_toJson_array (signatures : List Signature) :
    (Json.array
      (signatures.map fun signature =>
        signature.toValue.toJson)).tree.Holds
      (.sequence (signatures.map toValue)) :=
  ⟨rfl, _, holds_toJson signatures, rfl⟩

/- The trees of the data of records are plain. -/
theorem plain_toJson (signatures : List Signature) :
    Tree.PlainItems
      (itemTrees
        (signatures.map fun signature =>
          signature.toValue.toJson)) := by
  induction signatures with
  | nil => exact trivial
  | cons signature signatures ih =>
      have hKey : literalKey ∉ fields.head? := by decide
      have hFirst :
          signature.toValue.NotFirst literalKey :=
        ⟨hKey, trivial, trivial, trivial, trivial⟩
      exact ⟨Value.plain_toJson _ hFirst, ih⟩

/- Records nest one level deep. -/
theorem depthItems_toValue (signatures : List Signature) :
    Value.depthItems (signatures.map toValue) =
      if signatures = [] then 0 else 1 := by
  induction signatures with
  | nil => rfl
  | cons signature signatures ih =>
      have hRecord : signature.toValue.depth = 1 := by rfl
      rw [List.map_cons, Value.depthItems, hRecord, ih,
        if_neg (List.cons_ne_nil signature signatures)]
      split_ifs <;> rfl

end Signature

------------------------------------------------------------
-- Envelopes
------------------------------------------------------------

namespace Envelope

variable (envelope : Envelope)

/- The tree of the data holds the value of the envelope. -/
theorem holds_toJson :
    envelope.toJson.tree.Holds envelope.toValue := by
  have hSigned := Value.holds_toJson envelope.signed
  have hArray :=
    Signature.holds_toJson_array envelope.signatures
  exact
    ⟨rfl, _, _, ⟨_, _, hSigned, ⟨_, _, hArray, rfl, rfl⟩, rfl⟩,
      List.Perm.swap _ _ _, rfl⟩

variable {envelope}

/- The tree is plain if the payload never leads with it. -/
theorem plain_toJson
    (hFirst : envelope.signed.NotFirst literalKey) :
    envelope.toJson.tree.Plain := by
  have hSigned := Value.plain_toJson envelope.signed hFirst
  have hSignatures :=
    Signature.plain_toJson envelope.signatures
  have hKey : literalKey ∉ fields.head? := by decide
  exact ⟨hKey, hSigned, hSignatures, trivial⟩

/- The value is well formed exactly if the payload is. -/
theorem wellFormed_toValue_iff :
    envelope.toValue.WellFormed ↔
      envelope.signed.WellFormed := by
  constructor
  · intro hWell
    exact hWell.2.2.1
  · intro hSigned
    have hAscending :
        ["signatures", "signed"].Pairwise (· < ·) := by
      decide
    have hSignatures :
        Value.WellFormedItems
          (envelope.signatures.map Signature.toValue) := by
      rw [Value.wellFormedItems_iff]
      intro v hv
      rcases List.mem_map.mp hv with ⟨signature, _, rfl⟩
      exact signature.wellFormed_toValue
    exact ⟨hAscending, hSignatures, hSigned, trivial⟩

/- The value nests deeper than the payload and signatures. -/
theorem depth_toValue :
    envelope.toValue.depth =
      max (envelope.signed.depth + 1)
        (if envelope.signatures = [] then 2 else 3) := by
  have hSignatures :=
    Signature.depthItems_toValue envelope.signatures
  rw [toValue]
  simp only [Value.depth, Value.depthMembers, hSignatures]
  split_ifs <;> omega

/- What is wrapped is as well formed as the value was. -/
theorem wellFormed_signed_of_wrap
    {v : Value}
    (hWell : v.WellFormed)
    (hWrap : wrap v = .ok envelope) :
    envelope.signed.WellFormed := by
  by_cases hWrapped : isWrapped v = true
  · rw [wrap, if_pos hWrapped] at hWrap
    rw [← wellFormed_toValue_iff,
      toValue_of_ofValue hWell hWrap]
    exact hWell
  · rw [wrap, if_neg hWrapped] at hWrap
    cases hWrap
    exact hWell

end Envelope

end SignedMetadata
