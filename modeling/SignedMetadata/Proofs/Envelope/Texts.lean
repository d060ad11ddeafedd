import SignedMetadata.Proofs.Envelope.Forms
import SignedMetadata.Proofs.Reading.Bounds

/-
  Envelopes that are read from texts and from their values.

  The reader of texts goes by the fields of an envelope and
  takes any order of members, and the sequence of what the
  fields hold in place of a mapping.  The reader of values
  takes mappings only.  Whatever the reader of values takes
  from the value of a text is read from the text; what is
  read from the text is taken from its value exactly if all
  fields are named there.

  Main declarations:
    * `Envelope.ofText_of_ofValue`
    * `Envelope.NamesFields`
    * `Envelope.readers_agree_iff_named`
-/

namespace SignedMetadata

namespace Envelope

variable {envelope : Envelope}
variable {text : String}
variable {v : Value}

------------------------------------------------------------
-- From Values to Texts
------------------------------------------------------------

/- The value of an envelope is one of its forms. -/
theorem form_toValue (envelope : Envelope) :
    envelope.Form envelope.toValue := by
  refine ⟨_, ⟨_, ?_, rfl⟩, Or.inl rfl⟩
  rw [List.forall₂_map_right_iff, List.forall₂_same]
  intro signature _
  exact Or.inl rfl

/- A value that is read is a form of what it is read as. -/
theorem form_of_ofValue
    (hValue : Value.ofText text = .ok v)
    (hRead : ofValue v = .ok envelope) :
    envelope.Form v := by
  have hWell := Value.wellFormed_of_ofText hValue
  rw [← toValue_of_ofValue hWell hRead]
  exact form_toValue envelope

/-
  An envelope that is read from the value of a text is read
  from the text, however its members are ordered, spaced and
  escaped.
-/
theorem ofText_of_ofValue
    (hValue : Value.ofText text = .ok v)
    (hRead : ofValue v = .ok envelope) :
    ofText text = .ok envelope := by
  have hForm := form_of_ofValue hValue hRead
  exact ofText_eq_ok_iff.mpr ⟨v, hValue, hForm⟩

/- An envelope with a wide integer and a short record. -/
def wideEnvelope : Envelope where
  signed := .sequence [.integer 18446744073709551616]
  signatures := [shortRecord]

/- The envelope with its members in another order. -/
def reordered : String :=
  " \x7b\"signatures\":[\x7b\"sig\":\"0F\",\n" ++
    "\"method\":\"\\u006d\",\"keyid\":\"aB\"\x7d],\r" ++
      "\"si\\u0067ned\":[18446744073709551616]\x7d\t"

/- Order, white space, escapes and wide integers are read. -/
theorem ofText_of_ofValue_reordered :
    Value.ofText reordered = .ok wideEnvelope.toValue ∧
      ofValue wideEnvelope.toValue = .ok wideEnvelope ∧
        ofText reordered = .ok wideEnvelope := by
  have hValue :
      Value.ofText reordered = .ok wideEnvelope.toValue := by
    decide +kernel
  have hRead := ofValue_toValue wideEnvelope
  exact ⟨hValue, hRead, ofText_of_ofValue hValue hRead⟩

------------------------------------------------------------
-- From Texts to Values
------------------------------------------------------------

/- The fields of the value and of its records are named. -/
def NamesFields (v : Value) : Prop :=
  ∃ ms : Members Value,
    v = .mapping ms ∧
      ∀ items,
        ms.find? "signatures" = some (.sequence items) →
          ∀ record ∈ items, ∃ ns, record = .mapping ns

/- The value of an envelope names its fields. -/
theorem namesFields_toValue (envelope : Envelope) :
    NamesFields envelope.toValue := by
  refine ⟨_, rfl, ?_⟩
  rintro items hItems record hRecord
  cases hItems
  rcases List.mem_map.mp hRecord with ⟨signature, _, rfl⟩
  exact ⟨_, rfl⟩

/- A form with named fields is the value of the envelope. -/
theorem Form.eq_toValue
    (hForm : envelope.Form v)
    (hNamed : NamesFields v) :
    v = envelope.toValue := by
  rcases hNamed with ⟨ms, hMapping, hRecords⟩
  rcases hForm with ⟨_, ⟨records, hForms, rfl⟩, rfl | rfl⟩
  · cases hMapping
    have hValues :=
      Signature.eq_map_toValue hForms (hRecords records rfl)
    rw [toValue, hValues]
  · cases hMapping

/- The value of a text is taken if it names the fields. -/
theorem ofValue_eq_ok_iff_namesFields
    (hValue : Value.ofText text = .ok v)
    (hForm : envelope.Form v) :
    ofValue v = .ok envelope ↔ NamesFields v := by
  constructor
  · intro hRead
    have hWell := Value.wellFormed_of_ofText hValue
    rw [← toValue_of_ofValue hWell hRead]
    exact namesFields_toValue envelope
  · intro hNamed
    rw [hForm.eq_toValue hNamed]
    exact ofValue_toValue envelope

/- A sequence is wrapped as it is. -/
theorem wrap_sequence_ne
    (envelope : Envelope)
    (records : Value) :
    wrap (.sequence [envelope.signed, records]) ≠
      .ok envelope := by
  intro hWrap
  have hSigned :
      .sequence [envelope.signed, records] =
        envelope.signed :=
    congrArg signed (Except.ok.inj hWrap)
  have hSize := congrArg sizeOf hSigned
  simp only [Value.sequence.sizeOf_spec,
    List.cons.sizeOf_spec] at hSize
  omega

/- Wrapping finds the envelope if it names the fields. -/
theorem wrap_eq_ok_iff_namesFields
    (hValue : Value.ofText text = .ok v)
    (hForm : envelope.Form v) :
    wrap v = .ok envelope ↔ NamesFields v := by
  constructor
  · intro hWrap
    rcases hForm with ⟨records, hRecords, rfl | rfl⟩
    · exact
        (ofValue_eq_ok_iff_namesFields hValue
          ⟨records, hRecords, Or.inl rfl⟩).mp hWrap
    · exact absurd hWrap (wrap_sequence_ne envelope records)
  · intro hNamed
    rw [hForm.eq_toValue hNamed]
    exact wrap_toValue envelope

/- A record is taken from a mapping and nothing else. -/
theorem ofValue_eq_ok_iff_mapping
    {path : Path}
    {signature : Signature}
    (hForm : signature.Form v) :
    Signature.ofValue path v = .ok signature ↔
      ∃ ms, v = .mapping ms := by
  constructor
  · intro hRead
    rcases Signature.ofValue_eq_ok_iff.mp hRead with
      ⟨ms, hMapping, _⟩
    exact ⟨ms, hMapping⟩
  · intro hNamed
    rw [hForm.eq_toValue hNamed]
    exact Signature.ofValue_toValue path signature

/-
  Every text that an envelope is read from has a value.  The
  value is taken as the envelope, and wrapping it gives the
  envelope, exactly if it names the fields; it is never taken
  as another envelope.  Likewise, a record is taken from the
  value of its text exactly if that is a mapping.
-/
theorem readers_agree_iff_named (text : String) :
    (∀ envelope,
      ofText text = .ok envelope →
        ∃ v, Value.ofText text = .ok v ∧
          (ofValue v = .ok envelope ↔ NamesFields v) ∧
            (wrap v = .ok envelope ↔ NamesFields v) ∧
              ∀ other, ofValue v = .ok other →
                other = envelope) ∧
      ∀ signature,
        Signature.ofText text = .ok signature →
          ∃ v, Value.ofText text = .ok v ∧
            ∀ path,
              (Signature.ofValue path v = .ok signature ↔
                ∃ ms, v = .mapping ms) ∧
                ∀ other,
                  Signature.ofValue path v = .ok other →
                    other = signature := by
  constructor
  · intro envelope hText
    rcases ofText_eq_ok_iff.mp hText with
      ⟨v, hValue, hForm⟩
    refine
      ⟨v, hValue,
        ofValue_eq_ok_iff_namesFields hValue hForm,
        wrap_eq_ok_iff_namesFields hValue hForm, ?_⟩
    intro other hOther
    have hAgain : ofText text = .ok other :=
      ofText_eq_ok_iff.mpr
        ⟨v, hValue, form_of_ofValue hValue hOther⟩
    rw [hText] at hAgain
    exact (Except.ok.inj hAgain).symm
  · intro signature hText
    rcases Signature.ofText_eq_ok_iff.mp hText with
      ⟨v, hValue, hForm⟩
    refine ⟨v, hValue, ?_⟩
    intro path
    refine ⟨ofValue_eq_ok_iff_mapping hForm, ?_⟩
    intro other hOther
    have hSame :=
      Signature.toValue_of_ofValue
        (Value.wellFormed_of_ofText hValue) hOther
    have hAgain : Signature.ofText text = .ok other :=
      Signature.ofText_eq_ok_iff.mpr
        ⟨v, hValue, Or.inl hSame.symm⟩
    rw [hText] at hAgain
    exact (Except.ok.inj hAgain).symm

/- The record by position. -/
def recordByPosition : String :=
  "[\"aB\",\"m\",\"0F\"]"

/- An envelope whose one record is given by position. -/
def envelopeByPosition : String :=
  "\x7b\"signed\":5,\"signatures\":[" ++
    recordByPosition ++ "]\x7d"

/- A record by position is read, but not from its value. -/
theorem readers_agree_iff_named_by_position :
    ofText envelopeByPosition =
        .ok ⟨.integer 5, [shortRecord]⟩ ∧
      Signature.ofText recordByPosition = .ok shortRecord ∧
        (∃ v, Value.ofText envelopeByPosition = .ok v ∧
          ofValue v ≠ .ok ⟨.integer 5, [shortRecord]⟩) ∧
          ∃ v, Value.ofText recordByPosition = .ok v ∧
            Signature.ofValue .root v ≠ .ok shortRecord := by
  have hEnvelope :
      ofText envelopeByPosition =
        .ok ⟨.integer 5, [shortRecord]⟩ := by
    decide +kernel
  have hRecord :
      Signature.ofText recordByPosition =
        .ok shortRecord := by
    decide +kernel
  have hPosition :
      Value.ofText recordByPosition =
        .ok shortRecord.toSequence := by
    decide +kernel
  have hMapping :
      Value.ofText envelopeByPosition =
        .ok
          (.mapping [
            ("signatures",
              .sequence [shortRecord.toSequence]),
            ("signed", .integer 5)]) := by
    decide +kernel
  rcases (readers_agree_iff_named envelopeByPosition).1 _
      hEnvelope with
    ⟨v, hV, hReadV, _⟩
  rcases (readers_agree_iff_named recordByPosition).2 _
      hRecord with
    ⟨w, hW, hReadW⟩
  rw [hMapping] at hV
  rw [hPosition] at hW
  cases hV
  cases hW
  refine
    ⟨hEnvelope, hRecord, ⟨_, hMapping, ?_⟩, _, hPosition, ?_⟩
  · intro hOk
    rcases hReadV.mp hOk with ⟨ms, hMs, hNamed⟩
    cases hMs
    rcases hNamed _ rfl _ List.mem_cons_self with ⟨ns, hNs⟩
    cases hNs
  · intro hOk
    rcases (hReadW .root).1.mp hOk with ⟨ms, hMs⟩
    cases hMs

/-
  An array is read from a text as an envelope, but its value
  is no envelope, and is wrapped as a bare payload.
-/
theorem array_is_envelope_and_payload :
    ofText "[null,[]]" = .ok (new .null) ∧
      Value.ofText "[null,[]]" =
          .ok (.sequence [.null, .sequence []]) ∧
        ofValue (.sequence [.null, .sequence []]) =
            .error
              (.mismatch .root "a signable envelope"
                "sequence") ∧
          wrap (.sequence [.null, .sequence []]) =
            .ok (new (.sequence [.null, .sequence []])) := by
  refine ⟨?_, ?_, ?_, ?_⟩ <;> decide +kernel

end Envelope

end SignedMetadata
