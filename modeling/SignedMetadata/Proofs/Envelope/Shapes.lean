import SignedMetadata.Proofs.Catalog.Texts
import SignedMetadata.Proofs.Envelope.Values
import SignedMetadata.Proofs.Shape.Objects

/-
  Envelopes and their shape in the catalog.

  An envelope is read from exactly those values that have the
  shape of an envelope and no keys that the shape does not
  name, neither in the envelope nor in a record.  So the
  reader and the shape describe one format, except that
  objects with further fields keep their shapes.

  Main declarations:
    * `Value.OnlyKeys`
    * `Signature.exists_ofValue_iff`
    * `Envelope.exists_ofValue_iff`
    * `Envelope.ofValue_succeeds_iff_signable`
-/

namespace SignedMetadata

open Fallible

------------------------------------------------------------
-- Keys
------------------------------------------------------------

/- The value, if it is a mapping, has no other keys. -/
def Value.OnlyKeys
    (known : List String)
    (v : Value) : Prop :=
  ∀ members : Members Value,
    v = .mapping members →
      ∀ key ∈ Members.keys members, key ∈ known

variable {known : List String}
variable {v : Value}

/- A mapping has no other keys if none of its keys is. -/
theorem Value.onlyKeys_mapping_iff
    {members : Members Value} :
    (Value.mapping members).OnlyKeys known ↔
      ∀ key ∈ Members.keys members, key ∈ known := by
  constructor
  · intro hOnly
    exact hOnly members rfl
  · rintro hKeys _ ⟨⟩
    exact hKeys

------------------------------------------------------------
-- Records
------------------------------------------------------------

/- The shape of a hash holds for the texts of hex digits. -/
theorem Catalog.describes_hex_iff :
    Catalog.hex.Describes Shape.Found v ↔
      ∃ digits : HexText, v = .string digits.text := by
  constructor
  · intro hHex
    cases hHex with
    | @pattern _ s hFound =>
        have hText := Catalog.accepts_hexPattern_iff.mp hFound
        exact ⟨⟨s, hText⟩, rfl⟩
  · rintro ⟨digits, rfl⟩
    exact
      .pattern
        (Catalog.accepts_hexPattern_iff.mpr digits.isHex)

/- The shape of all strings holds for every string. -/
theorem Shape.describes_anyString_iff
    {reads : Pattern → String → Prop} :
    Shape.anyString.Describes reads v ↔
      ∃ s, v = .string s := by
  constructor
  · intro hString
    cases hString with
    | anyString s => exact ⟨s, rfl⟩
  · rintro ⟨s, rfl⟩
    exact .anyString s

namespace Signature

variable {path : Path}

/- A record is read from what has its shape and its keys. -/
theorem exists_ofValue_iff :
    (∃ signature, ofValue path v = .ok signature) ↔
      Catalog.signature.Describes Shape.Found v ∧
        v.OnlyKeys fields := by
  rw [Catalog.signature,
    Shape.describes_object_iff_required (by decide)]
  simp only [List.forall_mem_cons]
  constructor
  · rintro ⟨signature, hRead⟩
    rcases ofValue_eq_ok_iff.mp hRead with
      ⟨ms, rfl, hKeys, hKeyId, hMethod, hSig⟩
    have hHex (digits : HexText) :
        Catalog.hex.Describes Shape.Found
          (.string digits.text) :=
      Catalog.describes_hex_iff.mpr ⟨digits, rfl⟩
    refine
      ⟨⟨⟨ms, rfl⟩, ?_⟩, Value.onlyKeys_mapping_iff.mpr hKeys⟩
    exact
      ⟨⟨_, hKeyId, hHex signature.keyId⟩,
        ⟨_, hMethod, .anyString signature.method⟩,
        ⟨_, hSig, hHex signature.sig⟩, List.forall_mem_nil _⟩
  · rintro ⟨⟨⟨ms, rfl⟩, hKeyId, hMethod, hSig, _⟩, hOnly⟩
    rcases hKeyId with ⟨_, hKeyId, hHash⟩
    rcases hMethod with ⟨_, hMethod, hString⟩
    rcases hSig with ⟨_, hSig, hHex⟩
    rcases Catalog.describes_hex_iff.mp hHash with
      ⟨keyId, rfl⟩
    rcases Shape.describes_anyString_iff.mp hString with
      ⟨method, rfl⟩
    rcases Catalog.describes_hex_iff.mp hHex with ⟨sig, rfl⟩
    refine ⟨⟨keyId, method, sig⟩, ofValue_eq_ok_iff.mpr ?_⟩
    exact
      ⟨ms, rfl, Value.onlyKeys_mapping_iff.mp hOnly, hKeyId,
        hMethod, hSig⟩

/- Records are read if each of them is. -/
theorem exists_ofValues_iff
    (path : Path)
    (position : Nat)
    (items : List Value) :
    (∃ signatures,
      ofValues path position items = .ok signatures) ↔
      ∀ item ∈ items,
        Catalog.signature.Describes Shape.Found item ∧
          item.OnlyKeys fields := by
  induction items generalizing position with
  | nil => exact iff_of_true ⟨[], rfl⟩ (List.forall_mem_nil _)
  | cons item items ih =>
      rw [List.forall_mem_cons,
        ← @exists_ofValue_iff item (path.index position),
        ← ih (position + 1)]
      simp only [ofValues, bind_eq_ok_iff, return_eq_ok_iff]
      constructor
      · rintro ⟨_, first, hFirst, rest, hRest, rfl⟩
        exact ⟨⟨first, hFirst⟩, rest, hRest⟩
      · rintro ⟨⟨first, hFirst⟩, rest, hRest⟩
        exact ⟨_, first, hFirst, rest, hRest, rfl⟩

end Signature

------------------------------------------------------------
-- Envelopes
------------------------------------------------------------

namespace Envelope

/-
  An envelope is read from what binds both fields and nothing
  more, if a record can be read from every element.
-/
theorem exists_ofValue_iff :
    (∃ envelope, ofValue v = .ok envelope) ↔
      (∃ signed, v.get? "signed" = some signed) ∧
        (∃ items,
          v.get? "signatures" = some (.sequence items) ∧
            ∀ item ∈ items,
              Catalog.signature.Describes Shape.Found item ∧
                item.OnlyKeys Signature.fields) ∧
        v.OnlyKeys fields := by
  constructor
  · rintro ⟨envelope, hRead⟩
    rcases ofValue_eq_ok_iff.mp hRead with
      ⟨ms, items, rfl, hKeys, hSigned, hField, hSignatures⟩
    have hItems :=
      (Signature.exists_ofValues_iff _ 0 items).mp
        ⟨_, hSignatures⟩
    exact
      ⟨⟨_, hSigned⟩, ⟨items, hField, hItems⟩,
        Value.onlyKeys_mapping_iff.mpr hKeys⟩
  · rintro ⟨⟨signed, hSigned⟩, ⟨items, hField, hItems⟩, hOnly⟩
    have hRecords :=
      Signature.exists_ofValues_iff
        (Path.root.field "signatures") 0 items
    rcases hRecords.mpr hItems with ⟨signatures, hSignatures⟩
    cases v with
    | mapping ms =>
        have hKeys := Value.onlyKeys_mapping_iff.mp hOnly
        refine ⟨⟨signed, signatures⟩, ?_⟩
        exact
          ofValue_eq_ok_iff.mpr
            ⟨ms, items, rfl, hKeys, hSigned, hField,
              hSignatures⟩
    | _ => cases hSigned

/-
  The shape of envelopes holds for what binds both fields, if
  the elements, which can be counted, have the shape of
  records.
-/
theorem describes_signable_iff :
    Catalog.signable.Describes Shape.Found v ↔
      (∃ signed, v.get? "signed" = some signed) ∧
        ∃ items,
          v.get? "signatures" = some (.sequence items) ∧
            items.length ≤ Shape.greatestCount ∧
            ∀ item ∈ items,
              Catalog.signature.Describes Shape.Found item := by
  rw [Catalog.signable,
    Shape.describes_object_iff_required (by decide)]
  simp only [List.forall_mem_cons]
  constructor
  · rintro ⟨_, ⟨signed, hSigned, _⟩, ⟨_, hField, hList⟩, _⟩
    rcases Shape.describes_list_iff.mp hList with
      ⟨items, rfl, hCount, hItems⟩
    exact ⟨⟨signed, hSigned⟩, items, hField, hCount, hItems⟩
  · rintro ⟨⟨signed, hSigned⟩, items, hField, hCount, hItems⟩
    have hMapping :
        ∃ members : Members Value, v = .mapping members := by
      cases v with
      | mapping members => exact ⟨members, rfl⟩
      | _ => cases hSigned
    have hList :
        Catalog.signatures.Describes Shape.Found
          (.sequence items) :=
      Shape.describes_list_iff.mpr
        ⟨items, rfl, hCount, hItems⟩
    exact
      ⟨hMapping, ⟨signed, hSigned, .any signed⟩,
        ⟨_, hField, hList⟩, List.forall_mem_nil _⟩

/-
  An envelope is read from exactly the values that have the
  shape of an envelope and no keys beyond it.  The signatures
  are counted in 64 bits, as those of every sequence that a
  memory can hold may be.
-/
theorem ofValue_succeeds_iff_signable
    (v : Value)
    (hCount :
      ∀ items,
        v.get? "signatures" = some (.sequence items) →
          items.length ≤ 0xffffffffffffffff) :
    (∃ envelope, ofValue v = .ok envelope) ↔
      Catalog.signable.check v = .ok () ∧
        v.OnlyKeys ["signed", "signatures"] ∧
        ∀ items,
          v.get? "signatures" = some (.sequence items) →
            ∀ item ∈ items,
              item.OnlyKeys ["keyid", "method", "sig"] := by
  rw [Shape.check, Shape.checkAt_eq_ok_iff,
    exists_ofValue_iff, describes_signable_iff]
  constructor
  · rintro ⟨hSigned, ⟨items, hField, hItems⟩, hOnly⟩
    refine ⟨⟨hSigned, items, hField, ?_, ?_⟩, hOnly, ?_⟩
    · exact hCount items hField
    · exact fun item hItem => (hItems item hItem).1
    · intro others hOthers item hItem
      rw [hField] at hOthers
      cases hOthers
      exact (hItems item hItem).2
  · rintro ⟨⟨hSigned, items, hField, _, hItems⟩, hOnly, hKeys⟩
    refine ⟨hSigned, ⟨items, hField, ?_⟩, hOnly⟩
    intro item hItem
    exact ⟨hItems item hItem, hKeys items hField item hItem⟩

/- A record, and maybe something that no record has. -/
def noted (note : List (String × Value)) : Value :=
  .mapping
    ([("keyid", .string "F"), ("method", .string "m")] ++
      note ++ [("sig", .string "00ff")])

/- Such a record as the second of an envelope. -/
def holding (record : Value) : Value :=
  .mapping
    [("signatures", .sequence [noted [], record]),
      ("signed", .mapping [("signed", .null)])]

/- With a member to spare there is a shape, but no envelope. -/
theorem ofValue_succeeds_iff_signable_noted :
    Catalog.signable.check (holding (noted [])) = .ok () ∧
      (∃ envelope,
        ofValue (holding (noted [])) = .ok envelope) ∧
      Catalog.signable.check
          (holding (noted [("note", .bool true)])) =
        .ok () ∧
      ¬ ∃ envelope,
        ofValue (holding (noted [("note", .bool true)])) =
          .ok envelope := by
  have hCount (record : Value) :
      ∀ items,
        (holding record).get? "signatures" =
            some (.sequence items) →
          items.length ≤ 0xffffffffffffffff := by
    rintro items ⟨⟩
    have hTwo : 2 ≤ 0xffffffffffffffff := by decide
    exact hTwo
  have hPlain :=
    ofValue_succeeds_iff_signable (holding (noted []))
      (hCount _)
  have hNoted :=
    ofValue_succeeds_iff_signable
      (holding (noted [("note", .bool true)])) (hCount _)
  have hRead :
      ∃ envelope,
        ofValue (holding (noted [])) = .ok envelope :=
    ⟨_, rfl⟩
  refine ⟨(hPlain.mp hRead).1, hRead, ?_, ?_⟩
  · decide +kernel
  · intro hOther
    have hKeys :=
      (hNoted.mp hOther).2.2 _ rfl _
        (List.mem_cons_of_mem _ List.mem_cons_self) _ rfl
        "note" (by decide)
    exact absurd hKeys (by decide)

end Envelope

end SignedMetadata
