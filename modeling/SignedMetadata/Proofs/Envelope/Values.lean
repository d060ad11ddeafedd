import SignedMetadata.Envelope.Basic
import SignedMetadata.Proofs.Members
import SignedMetadata.Proofs.Shape.Meaning

/-
  Envelopes and the values that they are read from.

  A record, and an envelope, is read from its value again,
  and every well-formed value that is read is the value of
  what it was read as: no member is lost, added or changed.
  So a value is wrapped once at most.

  Main declarations:
    * `Signature.ofValue_eq_ok_iff`
    * `Envelope.ofValue_eq_ok_iff`
    * `Envelope.wrap_toValue`
    * `Envelope.ofValue_inverse_toValue`
-/

namespace SignedMetadata

open Fallible

------------------------------------------------------------
-- Fields
------------------------------------------------------------

namespace Signature

/- No key is extra if every key is a field's name. -/
theorem extraKey?_eq_none_iff
    {known : List String}
    {members : Members Value} :
    extraKey? known members = none ↔
      ∀ k ∈ Members.keys members, k ∈ known := by
  simp [extraKey?]

/- The text of a field is the string under its name. -/
theorem fieldText_eq_ok_iff
    {path : Path}
    {members : Members Value}
    {field text : String} :
    fieldText path members field = .ok text ↔
      members.find? field = some (.string text) := by
  unfold fieldText
  split <;> simp_all

/- Hex digits are determined by their text. -/
theorem parse_eq_ok_iff
    {field text : String}
    {hex : HexText} :
    HexText.parse field text = .ok hex ↔ text = hex.text := by
  rcases hex with ⟨digits, hDigits⟩
  unfold HexText.parse
  by_cases hText : Text.isHex text = true
  · simp [hText]
  · have hOther : text ≠ digits := by
      intro hEq
      exact hText (hEq ▸ hDigits)
    simp [hText, hOther]

/- The hex digits of a field are its text, if that is hex. -/
theorem fieldHex_eq_ok_iff
    {path : Path}
    {field text : String}
    {hex : HexText} :
    fieldHex path field text = .ok hex ↔
      text = hex.text := by
  rw [← @parse_eq_ok_iff field, fieldHex]
  cases HexText.parse field text <;> simp

------------------------------------------------------------
-- Records
------------------------------------------------------------

variable {path : Path}
variable {v : Value}
variable {vs : List Value}
variable {signature : Signature}
variable {signatures : List Signature}

/- A record is determined by its texts. -/
theorem parse_eq_ok_iff_texts
    {keyId method sig : String} :
    Signature.parse keyId method sig = .ok signature ↔
      keyId = signature.keyId.text ∧
        method = signature.method ∧
        sig = signature.sig.text := by
  simp only [Signature.parse, HexText.parseKeyId,
    HexText.parseSignature, bind_eq_ok_iff,
    return_eq_ok_iff, parse_eq_ok_iff]
  constructor
  · rintro ⟨_, rfl, _, rfl, rfl⟩
    exact ⟨rfl, rfl, rfl⟩
  · rintro ⟨hKeyId, rfl, hSig⟩
    exact ⟨_, hKeyId, _, hSig, rfl⟩

/- A record is read from what binds its fields and no more. -/
theorem ofValue_eq_ok_iff :
    ofValue path v = .ok signature ↔
      ∃ ms : Members Value,
        v = .mapping ms ∧
          (∀ k ∈ Members.keys ms, k ∈ fields) ∧
          ms.find? "keyid" =
              some (.string signature.keyId.text) ∧
            ms.find? "method" =
                some (.string signature.method) ∧
              ms.find? "sig" =
                some (.string signature.sig.text) := by
  rw [ofValue, bind_eq_ok_iff]
  simp only [Shape.expectMapping_eq_ok_iff,
    ← extraKey?_eq_none_iff]
  apply exists_congr
  intro ms
  apply and_congr_right
  intro _
  cases extraKey? fields ms with
  | some key => simp
  | none =>
      simp only [bind_eq_ok_iff, return_eq_ok_iff,
        fieldText_eq_ok_iff, fieldHex_eq_ok_iff, true_and]
      constructor
      · rintro ⟨_, hKeyId, method, hMethod, _, hSig, keyId,
          rfl, sig, rfl, rfl⟩
        exact ⟨hKeyId, hMethod, hSig⟩
      · rintro ⟨hKeyId, hMethod, hSig⟩
        exact
          ⟨_, hKeyId, _, hMethod, _, hSig, _, rfl, _, rfl,
            rfl⟩

/- A record is read from its value. -/
theorem ofValue_toValue
    (path : Path)
    (signature : Signature) :
    ofValue path signature.toValue = .ok signature := by
  apply ofValue_eq_ok_iff.mpr
  refine ⟨_, rfl, ?_, rfl, rfl, rfl⟩
  intro k hk
  exact hk

/- A well-formed value is the value of its record. -/
theorem toValue_of_ofValue
    (hWell : v.WellFormed)
    (hValue : ofValue path v = .ok signature) :
    signature.toValue = v := by
  rcases ofValue_eq_ok_iff.mp hValue with
    ⟨ms, rfl, hKeys, hKeyId, hMethod, hSig⟩
  have hAscending : fields.Pairwise (· < ·) := by decide
  have hMembers :
      ms =
        [("keyid", .string signature.keyId.text),
          ("method", .string signature.method),
          ("sig", .string signature.sig.text)] :=
    Members.eq_of_fields hWell.1 hAscending hKeys
      (by simp [hKeyId, hMethod, hSig])
  rw [hMembers, toValue]

/- Records are read from their values, one by one. -/
theorem ofValues_map_toValue
    (path : Path)
    (position : Nat)
    (signatures : List Signature) :
    ofValues path position (signatures.map toValue) =
      .ok signatures := by
  induction signatures generalizing position with
  | nil => rfl
  | cons signature signatures ih =>
      rw [List.map_cons, ofValues, ofValue_toValue, ih]
      rfl

/- Well-formed values are the values of their records. -/
theorem map_toValue_of_ofValues
    {position : Nat}
    (hWell : Value.WellFormedItems vs)
    (hValues : ofValues path position vs = .ok signatures) :
    signatures.map toValue = vs := by
  induction vs generalizing position signatures with
  | nil =>
      cases hValues
      rfl
  | cons v vs ih =>
      simp only [ofValues, bind_eq_ok_iff, return_eq_ok_iff]
        at hValues
      rcases hValues with ⟨first, hFirst, rest, hRest, rfl⟩
      rw [List.map_cons, toValue_of_ofValue hWell.1 hFirst,
        ih hWell.2 hRest]

end Signature

------------------------------------------------------------
-- Envelopes
------------------------------------------------------------

namespace Envelope

variable {v : Value}
variable {envelope : Envelope}

/- A field of an envelope is what its name is bound to. -/
theorem fieldValue_eq_ok_iff
    {members : Members Value}
    {field : String} :
    fieldValue members field = .ok v ↔
      members.find? field = some v := by
  unfold fieldValue
  split <;> simp_all

/- An envelope is read from its two fields and no more. -/
theorem ofValue_eq_ok_iff :
    ofValue v = .ok envelope ↔
      ∃ (ms : Members Value) (items : List Value),
        v = .mapping ms ∧
          (∀ k ∈ Members.keys ms, k ∈ fields) ∧
          ms.find? "signed" = some envelope.signed ∧
            ms.find? "signatures" =
                some (.sequence items) ∧
              Signature.ofValues
                  (Path.root.field "signatures") 0 items =
                .ok envelope.signatures := by
  rw [ofValue, bind_eq_ok_iff]
  simp only [Shape.expectMapping_eq_ok_iff, ofMembers,
    ← Signature.extraKey?_eq_none_iff]
  apply exists_congr
  intro ms
  rw [exists_and_left]
  apply and_congr_right
  intro _
  cases Signature.extraKey? fields ms with
  | some key => simp
  | none =>
      simp only [bind_eq_ok_iff, return_eq_ok_iff,
        fieldValue_eq_ok_iff, Shape.expectSequence_eq_ok_iff,
        true_and]
      constructor
      · rintro ⟨signed, hSigned, _, hField, items, rfl,
          signatures, hSignatures, rfl⟩
        exact ⟨items, hSigned, hField, hSignatures⟩
      · rintro ⟨items, hSigned, hField, hSignatures⟩
        exact
          ⟨_, hSigned, _, hField, items, rfl, _, hSignatures,
            rfl⟩

/- An envelope is read from its value. -/
theorem ofValue_toValue (envelope : Envelope) :
    ofValue envelope.toValue = .ok envelope := by
  apply ofValue_eq_ok_iff.mpr
  refine ⟨_, _, rfl, ?_, rfl, rfl, ?_⟩
  · have hKeys :
        ∀ k ∈ ["signatures", "signed"], k ∈ fields := by
      decide
    exact hKeys
  · exact Signature.ofValues_map_toValue _ 0 _

/- A well-formed value is the value of its envelope. -/
theorem toValue_of_ofValue
    (hWell : v.WellFormed)
    (hValue : ofValue v = .ok envelope) :
    envelope.toValue = v := by
  rcases ofValue_eq_ok_iff.mp hValue with
    ⟨ms, items, rfl, hKeys, hSigned, hField, hSignatures⟩
  have hAscending :
      ["signatures", "signed"].Pairwise (· < ·) := by
    decide
  have hFields :
      ∀ k ∈ fields, k ∈ ["signatures", "signed"] := by
    decide
  have hMembers :
      ms =
        [("signatures", .sequence items),
          ("signed", envelope.signed)] :=
    Members.eq_of_fields hWell.1 hAscending
      (fun k hk => hFields k (hKeys k hk))
      (by simp [hSigned, hField])
  subst hMembers
  have hItems : Value.WellFormedItems items := hWell.2.1
  rw [toValue,
    Signature.map_toValue_of_ofValues hItems hSignatures]

------------------------------------------------------------
-- Wrapping
------------------------------------------------------------

/- A mapping with a member `signed` is wrapped already. -/
theorem isWrapped_iff :
    isWrapped v = true ↔
      ∃ ms : Members Value,
        v = .mapping ms ∧ "signed" ∈ Members.keys ms := by
  have hFound :
      ∀ ms : Members Value,
        (ms.find? "signed").isSome = true ↔
          "signed" ∈ Members.keys ms := by
    intro ms
    rw [← not_iff_not, ← Members.find?_eq_none_iff,
      Bool.not_eq_true, Option.isSome_eq_false_iff,
      Option.isNone_iff_eq_none]
  cases v with
  | mapping ms =>
      simpa [isWrapped, Value.get?, Value.members?]
        using hFound ms
  | _ => simp [isWrapped, Value.get?, Value.members?]

/- The value of an envelope is wrapped already. -/
theorem wrap_toValue (envelope : Envelope) :
    wrap envelope.toValue = .ok envelope := by
  have hWrapped : isWrapped envelope.toValue = true := by
    rfl
  rw [wrap, if_pos hWrapped, ofValue_toValue]

/-
  Values and envelopes determine each other.  An envelope is
  read from its value, and only from its value; wrapping a
  value again changes nothing, since a mapping with a member
  `signed` is kept as it is and any other value becomes a
  payload without signatures.
-/
theorem ofValue_inverse_toValue :
    (∀ envelope : Envelope,
      ofValue envelope.toValue = .ok envelope) ∧
      (∀ (v : Value) (envelope : Envelope),
        v.WellFormed → ofValue v = .ok envelope →
          envelope.toValue = v) ∧
      ∀ (p : Value) (envelope : Envelope),
        p.WellFormed → wrap p = .ok envelope →
          wrap envelope.toValue = .ok envelope ∧
            ((∃ ms : Members Value,
                p = .mapping ms ∧
                  "signed" ∈ Members.keys ms) →
              envelope.toValue = p) ∧
            ((¬ ∃ ms : Members Value,
                p = .mapping ms ∧
                  "signed" ∈ Members.keys ms) →
              envelope.signed = p ∧
                envelope.signatures = []) := by
  refine ⟨ofValue_toValue, ?_, ?_⟩
  · intro v envelope hWell hValue
    exact toValue_of_ofValue hWell hValue
  · intro p envelope hWell hWrap
    refine ⟨wrap_toValue envelope, ?_, ?_⟩
    · intro hSigned
      rw [wrap, if_pos (isWrapped_iff.mpr hSigned)] at hWrap
      exact toValue_of_ofValue hWell hWrap
    · intro hPlain
      rw [← isWrapped_iff] at hPlain
      rw [wrap, if_neg hPlain] at hWrap
      cases hWrap
      exact ⟨rfl, rfl⟩

/- A record of short hex digits. -/
def shortRecord : Signature where
  keyId := ⟨"aB", by rfl⟩
  method := "m"
  sig := ⟨"0F", by rfl⟩

/- A signed envelope around the value of another one. -/
def nested : Envelope where
  signed := (mk .null [shortRecord]).toValue
  signatures := [shortRecord, shortRecord]

/- A payload that is an envelope itself stays the payload. -/
theorem ofValue_inverse_toValue_nested :
    nested.toValue.WellFormed ∧
      ofValue nested.toValue = .ok nested ∧
      wrap nested.toValue = .ok nested ∧
      ofValue nested.signed = .ok ⟨.null, [shortRecord]⟩ ∧
      nested ≠ new .null := by
  have hAscending :
      ["signatures", "signed"].Pairwise (· < ·) := by
    decide
  have hRecord : shortRecord.toValue.WellFormed :=
    ⟨by decide, trivial, trivial, trivial, trivial⟩
  have hInner : nested.signed.WellFormed :=
    ⟨hAscending, ⟨hRecord, trivial⟩, trivial, trivial⟩
  have hWell : nested.toValue.WellFormed :=
    ⟨hAscending, ⟨hRecord, hRecord, trivial⟩, hInner,
      trivial⟩
  rcases ofValue_inverse_toValue with ⟨hRead, _, hWrap⟩
  have hWrapped : wrap nested.toValue = .ok nested := by
    decide +kernel
  have hAgain :=
    (hWrap nested.toValue nested hWell hWrapped).1
  exact
    ⟨hWell, hRead nested, hAgain, hRead ⟨.null, [shortRecord]⟩,
      by decide⟩

end Envelope

end SignedMetadata
