import SignedMetadata.Envelope.Reading
import SignedMetadata.Proofs.Envelope.Values
import SignedMetadata.Proofs.Reading.Fields

/-
  The trees that envelopes and records are read from.

  A record is read from a tree exactly if the value of the
  tree is the mapping of its fields, or the sequence of their
  contents.  An envelope is read likewise, with each of its
  records in either form.

  Main declarations:
    * `Signature.Form`
    * `Signature.readsAs_ofTree`
    * `Envelope.Form`
    * `Envelope.readsAs_ofTree`
-/

namespace SignedMetadata

open Fallible

open Json (Tree)

variable {tree : Tree}
variable {members : List (String × Tree)}
variable {items : List Tree}
variable {closed : Bool}
variable {name label : String}

------------------------------------------------------------
-- Strings
------------------------------------------------------------

/- A string is read from the tree of a string. -/
theorem readString_eq_ok_iff
    {text : String} :
    tree.readString = .ok text ↔
      Value.ofTree tree = .ok (.string text) := by
  cases tree with
  | string text' => simp [Tree.readString, Value.ofTree]
  | number literal =>
      simp [Tree.readString, reject_ne_ok,
        Value.ofTree_number_iff]
  | array items closed =>
      simp [Tree.readString, reject_ne_ok,
        Value.ofTree_array_iff]
  | object members closed =>
      simp [Tree.readString, reject_ne_ok,
        Value.ofTree_object_iff]
  | _ => simp [Tree.readString, reject_ne_ok, Value.ofTree]

/- Hex digits are read from the tree of a string of them. -/
theorem hexText_eq_ok_iff
    {hex : HexText} :
    HexText.ofTree (HexText.parse label) tree = .ok hex ↔
      Value.ofTree tree = .ok (.string hex.text) := by
  rw [← readString_eq_ok_iff, HexText.ofTree,
    bind_eq_ok_iff]
  constructor
  · rintro ⟨text, hText, hHex⟩
    cases hParse : HexText.parse label text with
    | error fault =>
        rw [hParse] at hHex
        cases hHex
    | ok digits =>
        rw [hParse] at hHex
        cases hHex
        rw [hText, Signature.parse_eq_ok_iff.mp hParse]
  · intro hText
    refine ⟨hex.text, hText, ?_⟩
    rw [Signature.parse_eq_ok_iff.mpr rfl]

/- A field of text is read as a field with a string. -/
theorem readField_readString_iff
    {text : String} :
    readField name Tree.readString none members =
        .ok (some text) ↔
      readField name Value.ofTree none members =
        .ok (some (.string text)) := by
  have hReads :
      ReadsAs Tree.readString fun text v =>
        v = .string text := by
    intro tree text
    simp [readString_eq_ok_iff]
  rw [readField_of_readsAs hReads]
  simp

/- A field of hex digits, likewise. -/
theorem readField_hexText_iff
    {hex : HexText} :
    readField name (HexText.ofTree (HexText.parse label))
        none members = .ok (some hex) ↔
      readField name Value.ofTree none members =
        .ok (some (.string hex.text)) := by
  have hReads :
      ReadsAs (HexText.ofTree (HexText.parse label))
        fun hex v => v = .string hex.text := by
    intro tree hex
    simp [hexText_eq_ok_iff]
  rw [readField_of_readsAs hReads]
  simp

------------------------------------------------------------
-- Records
------------------------------------------------------------

namespace Signature

variable {signature : Signature}

/- A record as a sequence of the contents of its fields. -/
def toSequence (signature : Signature) : Value :=
  .sequence [
    .string signature.keyId.text,
    .string signature.method,
    .string signature.sig.text]

/- The value of a tree that a record is read from. -/
def Form (signature : Signature) (v : Value) : Prop :=
  v = signature.toValue ∨ v = signature.toSequence

/- A draft is read field by field. -/
theorem Draft.read_eq_ok_iff
    {draft result : Draft} :
    draft.read members = .ok result ↔
      (∀ k ∈ Members.keys members, k ∈ fields) ∧
        readField "keyid" (HexText.ofTree HexText.parseKeyId)
            draft.keyId members = .ok result.keyId ∧
          readField "method" Tree.readString draft.method
              members = .ok result.method ∧
            readField "sig"
                (HexText.ofTree HexText.parseSignature)
                draft.sig members = .ok result.sig := by
  induction members generalizing draft with
  | nil =>
      rcases draft with ⟨keyId, method, sig⟩
      rcases result with ⟨keyId', method', sig'⟩
      simp [Draft.read, readField]
  | cons member rest ih =>
      rcases member with ⟨key, tree⟩
      rw [Members.keys_cons, List.forall_mem_cons]
      by_cases hKeyId : key = "keyid"
      · subst hKeyId
        have hMethod : "keyid" ≠ "method" := by decide
        have hSig : "keyid" ≠ "sig" := by decide
        rw [Draft.read, if_pos rfl, bind_eq_ok_iff,
          readField_cons_self, readField_cons_of_ne hMethod,
          readField_cons_of_ne hSig]
        simp only [ih]
        constructor
        · rintro ⟨next, hOnce, hKeys, hNext, hOthers⟩
          exact
            ⟨⟨by simp [fields], hKeys⟩,
              ⟨next, hOnce, hNext⟩, hOthers⟩
        · rintro ⟨⟨_, hKeys⟩, ⟨next, hOnce, hNext⟩, hOthers⟩
          exact ⟨next, hOnce, hKeys, hNext, hOthers⟩
      rw [Draft.read, if_neg hKeyId,
        readField_cons_of_ne hKeyId]
      by_cases hMethod : key = "method"
      · subst hMethod
        have hSig : "method" ≠ "sig" := by decide
        rw [if_pos rfl, bind_eq_ok_iff, readField_cons_self,
          readField_cons_of_ne hSig]
        simp only [ih]
        constructor
        · rintro
            ⟨next, hOnce, hKeys, hFirst, hNext, hLast⟩
          exact
            ⟨⟨by simp [fields], hKeys⟩, hFirst,
              ⟨next, hOnce, hNext⟩, hLast⟩
        · rintro
            ⟨⟨_, hKeys⟩, hFirst, ⟨next, hOnce, hNext⟩,
              hLast⟩
          exact ⟨next, hOnce, hKeys, hFirst, hNext, hLast⟩
      rw [if_neg hMethod, readField_cons_of_ne hMethod]
      by_cases hSig : key = "sig"
      · subst hSig
        rw [if_pos rfl, bind_eq_ok_iff, readField_cons_self]
        simp only [ih]
        constructor
        · rintro
            ⟨next, hOnce, hKeys, hFirst, hSecond, hNext⟩
          exact
            ⟨⟨by simp [fields], hKeys⟩, hFirst, hSecond,
              next, hOnce, hNext⟩
        · rintro
            ⟨⟨_, hKeys⟩, hFirst, hSecond, next, hOnce,
              hNext⟩
          exact ⟨next, hOnce, hKeys, hFirst, hSecond, hNext⟩
      rw [if_neg hSig]
      simp [fields, hKeyId, hMethod, hSig]

/- A draft is finished when all its fields were read. -/
theorem Draft.finish_eq_ok_iff
    {draft : Draft} :
    draft.finish = .ok signature ↔
      draft =
        ⟨some signature.keyId, some signature.method,
          some signature.sig⟩ := by
  rcases draft with ⟨keyId, method, sig⟩
  simp only [Draft.finish, bind_eq_ok_iff,
    required_eq_ok_iff, return_eq_ok_iff, Draft.mk.injEq]
  constructor
  · rintro ⟨_, hKeyId, _, hMethod, _, hSig, rfl⟩
    exact ⟨hKeyId, hMethod, hSig⟩
  · rintro ⟨hKeyId, hMethod, hSig⟩
    exact ⟨_, hKeyId, _, hMethod, _, hSig, rfl⟩

/- A record is read from an object with its value. -/
theorem ofTree_object_iff :
    ofTree (.object members closed) = .ok signature ↔
      Value.ofTree (.object members closed) =
        .ok signature.toValue := by
  have hAscending :
      Members.Ascending
        [("keyid", Value.string signature.keyId.text),
          ("method", .string signature.method),
          ("sig", .string signature.sig.text)] := by
    have hFields : fields.Pairwise (· < ·) := by decide
    exact hFields
  have hLiteral : literalKey ∉ fields := by decide
  rw [toValue,
    Value.ofTree_object_fields_iff hAscending hLiteral]
  simp only [ofTree, bind_eq_ok_iff,
    Json.whenClosed_eq_ok_iff, Draft.finish_eq_ok_iff,
    List.forall_mem_cons]
  constructor
  · rintro ⟨_, hDraft, _, ⟨hClosed, rfl⟩, rfl⟩
    rcases Draft.read_eq_ok_iff.mp hDraft with
      ⟨hKeys, hKeyId, hMethod, hSig⟩
    exact
      ⟨hClosed, hKeys, readField_hexText_iff.mp hKeyId,
        readField_readString_iff.mp hMethod,
        readField_hexText_iff.mp hSig, by simp⟩
  · rintro ⟨hClosed, hKeys, hKeyId, hMethod, hSig, _⟩
    refine ⟨_, ?_, _, ⟨hClosed, rfl⟩, rfl⟩
    exact
      Draft.read_eq_ok_iff.mpr
        ⟨hKeys, readField_hexText_iff.mpr hKeyId,
          readField_readString_iff.mpr hMethod,
          readField_hexText_iff.mpr hSig⟩

/- A record is read from an array with its contents. -/
theorem ofTree_array_iff :
    ofTree (.array items closed) = .ok signature ↔
      Value.ofTree (.array items closed) =
        .ok signature.toSequence := by
  rw [toSequence, Value.ofTree_array_items_iff]
  simp only [ofTree, bind_eq_ok_iff, readElement_eq_ok_iff,
    Json.whenClosed_eq_ok_iff, Bool.and_eq_true,
    decide_eq_true_eq]
  constructor
  · rintro ⟨keyId, ⟨first, hFirst, hKeyId⟩, method,
      ⟨second, hSecond, hMethod⟩, sig, ⟨third, hThird, hSig⟩,
      ⟨hClosed, hLength⟩, rfl⟩
    have hItems : items = [first, second, third] := by
      rcases items with _ | ⟨_, _ | ⟨_, _ | ⟨_, rest⟩⟩⟩
      · cases hFirst
      · cases hSecond
      · cases hThird
      · cases hFirst
        cases hSecond
        cases hThird
        simp only [List.length_cons] at hLength
        have hRest : rest.length = 0 := by omega
        rw [List.length_eq_zero_iff.mp hRest]
    rw [hItems]
    exact
      ⟨hClosed,
        .cons (hexText_eq_ok_iff.mp hKeyId)
          (.cons (readString_eq_ok_iff.mp hMethod)
            (.cons (hexText_eq_ok_iff.mp hSig) .nil))⟩
  · rintro ⟨hClosed, hItems⟩
    rcases hItems with
      _ | ⟨hKeyId, _ | ⟨hMethod, _ | ⟨hSig, ⟨⟩⟩⟩⟩
    exact
      ⟨_, ⟨_, rfl, hexText_eq_ok_iff.mpr hKeyId⟩, _,
        ⟨_, rfl, readString_eq_ok_iff.mpr hMethod⟩, _,
        ⟨_, rfl, hexText_eq_ok_iff.mpr hSig⟩,
        ⟨hClosed, Nat.le_refl 3⟩, rfl⟩

/-
  A record is read from every tree with its value or with
  the sequence of its contents, and from no other.
-/
theorem readsAs_ofTree : ReadsAs ofTree Form := by
  intro tree signature
  constructor
  · intro hRead
    cases tree with
    | object members closed =>
        exact ⟨_, ofTree_object_iff.mp hRead, Or.inl rfl⟩
    | array items closed =>
        exact ⟨_, ofTree_array_iff.mp hRead, Or.inr rfl⟩
    | number literal => exact absurd hRead reject_ne_ok
    | _ => cases hRead
  · rintro ⟨_, hValue, rfl | rfl⟩
    · rcases Value.exists_object_of_ofTree hValue with
        ⟨members, closed, rfl⟩
      exact ofTree_object_iff.mpr hValue
    · rcases Value.exists_array_of_ofTree hValue with
        ⟨items, closed, rfl⟩
      exact ofTree_array_iff.mpr hValue

/- A record is read from a text with one of its forms. -/
theorem ofText_eq_ok_iff
    {text : String} :
    ofText text = .ok signature ↔
      ∃ v, Value.ofText text = .ok v ∧
        signature.Form v := by
  exact ofDocument_of_readsAs readsAs_ofTree

/- A form that is a mapping is the value of the record. -/
theorem Form.eq_toValue
    {v : Value}
    (hForm : signature.Form v)
    (hNamed : ∃ ms, v = .mapping ms) :
    v = signature.toValue := by
  rcases hForm with hValue | hSequence
  · exact hValue
  · rcases hNamed with ⟨ms, rfl⟩
    cases hSequence

/- Forms that are mappings are the values of the records. -/
theorem eq_map_toValue
    {signatures : List Signature}
    {records : List Value}
    (hForms : List.Forall₂ Form signatures records)
    (hNamed :
      ∀ record ∈ records, ∃ ms, record = .mapping ms) :
    records = signatures.map toValue := by
  induction hForms with
  | nil => rfl
  | cons hForm _ ih =>
      rw [List.forall_mem_cons] at hNamed
      rw [List.map_cons, ← hForm.eq_toValue hNamed.1,
        ← ih hNamed.2]

/- Records are read from the elements with their forms. -/
theorem ofTrees_eq_ok_iff
    {trees : List Tree}
    {signatures : List Signature} :
    ofTrees trees = .ok signatures ↔
      ∃ records,
        List.Forall₂ (fun tree v => Value.ofTree tree = .ok v)
            trees records ∧
          List.Forall₂ Form signatures records := by
  induction trees generalizing signatures with
  | nil =>
      simp [ofTrees, List.forall₂_nil_left_iff, eq_comm]
  | cons tree trees ih =>
      simp only [ofTrees, bind_eq_ok_iff, return_eq_ok_iff,
        readsAs_ofTree tree, ih, List.forall₂_cons_left_iff]
      constructor
      · rintro ⟨first, ⟨v, hValue, hForm⟩, rest,
          ⟨records, hValues, hForms⟩, rfl⟩
        exact
          ⟨v :: records, ⟨v, records, hValue, hValues, rfl⟩,
            .cons hForm hForms⟩
      · rintro ⟨_, ⟨v, records, hValue, hValues, rfl⟩,
          hForms⟩
        cases hForms with
        | cons hForm hForms =>
            exact
              ⟨_, ⟨v, hValue, hForm⟩, _,
                ⟨records, hValues, hForms⟩, rfl⟩

end Signature

------------------------------------------------------------
-- Envelopes
------------------------------------------------------------

namespace Envelope

variable {envelope : Envelope}

/- The records of an envelope in any of their forms. -/
def RecordsForm
    (signatures : List Signature)
    (v : Value) : Prop :=
  ∃ records,
    List.Forall₂ Signature.Form signatures records ∧
      v = .sequence records

/- The value of a tree that an envelope is read from. -/
def Form (envelope : Envelope) (v : Value) : Prop :=
  ∃ records,
    RecordsForm envelope.signatures records ∧
      (v =
          .mapping [
            ("signatures", records),
            ("signed", envelope.signed)] ∨
        v = .sequence [envelope.signed, records])

/- Records are read from an array with their forms. -/
theorem readsAs_readSignatures :
    ReadsAs readSignatures RecordsForm := by
  intro tree signatures
  constructor
  · intro hRead
    cases tree with
    | array items closed =>
        simp only [readSignatures, bind_eq_ok_iff,
          Json.whenClosed_eq_ok_iff,
          Signature.ofTrees_eq_ok_iff] at hRead
        rcases hRead with
          ⟨_, ⟨records, hValues, hForms⟩, hClosed, rfl⟩
        exact
          ⟨_,
            Value.ofTree_array_items_iff.mpr
              ⟨hClosed, hValues⟩,
            records, hForms, rfl⟩
    | number literal => exact absurd hRead reject_ne_ok
    | _ => cases hRead
  · rintro ⟨_, hValue, records, hForms, rfl⟩
    rcases Value.exists_array_of_ofTree hValue with
      ⟨items, closed, rfl⟩
    rcases Value.ofTree_array_items_iff.mp hValue with
      ⟨hClosed, hValues⟩
    simp only [readSignatures, bind_eq_ok_iff,
      Json.whenClosed_eq_ok_iff,
      Signature.ofTrees_eq_ok_iff]
    exact ⟨_, ⟨records, hValues, hForms⟩, hClosed, rfl⟩

/- A draft is read field by field. -/
theorem Draft.read_eq_ok_iff
    {draft result : Draft} :
    draft.read members = .ok result ↔
      (∀ k ∈ Members.keys members, k ∈ fields) ∧
        readField "signed" Value.ofTree draft.signed
            members = .ok result.signed ∧
          readField "signatures" readSignatures
              draft.signatures members =
            .ok result.signatures := by
  induction members generalizing draft with
  | nil =>
      rcases draft with ⟨signed, signatures⟩
      rcases result with ⟨signed', signatures'⟩
      simp [Draft.read, readField]
  | cons member rest ih =>
      rcases member with ⟨key, tree⟩
      rw [Members.keys_cons, List.forall_mem_cons]
      by_cases hSigned : key = "signed"
      · subst hSigned
        have hSignatures : "signed" ≠ "signatures" := by
          decide
        rw [Draft.read, if_pos rfl, bind_eq_ok_iff,
          readField_cons_self,
          readField_cons_of_ne hSignatures]
        simp only [ih]
        constructor
        · rintro ⟨next, hOnce, hKeys, hNext, hLast⟩
          exact
            ⟨⟨by simp [fields], hKeys⟩,
              ⟨next, hOnce, hNext⟩, hLast⟩
        · rintro ⟨⟨_, hKeys⟩, ⟨next, hOnce, hNext⟩, hLast⟩
          exact ⟨next, hOnce, hKeys, hNext, hLast⟩
      rw [Draft.read, if_neg hSigned,
        readField_cons_of_ne hSigned]
      by_cases hSignatures : key = "signatures"
      · subst hSignatures
        rw [if_pos rfl, bind_eq_ok_iff, readField_cons_self]
        simp only [ih]
        constructor
        · rintro ⟨next, hOnce, hKeys, hFirst, hNext⟩
          exact
            ⟨⟨by simp [fields], hKeys⟩, hFirst, next, hOnce,
              hNext⟩
        · rintro ⟨⟨_, hKeys⟩, hFirst, next, hOnce, hNext⟩
          exact ⟨next, hOnce, hKeys, hFirst, hNext⟩
      rw [if_neg hSignatures]
      simp [fields, hSigned, hSignatures]

/- A draft is finished when both its fields were read. -/
theorem Draft.finish_eq_ok_iff
    {draft : Draft} :
    draft.finish = .ok envelope ↔
      draft =
        ⟨some envelope.signed,
          some envelope.signatures⟩ := by
  rcases draft with ⟨signed, signatures⟩
  simp only [Draft.finish, bind_eq_ok_iff,
    required_eq_ok_iff, return_eq_ok_iff, Draft.mk.injEq]
  constructor
  · rintro ⟨_, hSigned, _, hSignatures, rfl⟩
    exact ⟨hSigned, hSignatures⟩
  · rintro ⟨hSigned, hSignatures⟩
    exact ⟨_, hSigned, _, hSignatures, rfl⟩

/- An envelope is read from an object with its fields. -/
theorem ofTree_object_iff :
    ofTree (.object members closed) = .ok envelope ↔
      ∃ records,
        RecordsForm envelope.signatures records ∧
          Value.ofTree (.object members closed) =
            .ok
              (.mapping [
                ("signatures", records),
                ("signed", envelope.signed)]) := by
  have hAscending :
      ∀ records,
        Members.Ascending
          [("signatures", records),
            ("signed", envelope.signed)] := by
    intro records
    have hKeys :
        ["signatures", "signed"].Pairwise (· < ·) := by
      decide
    exact hKeys
  have hLiteral :
      literalKey ∉ ["signatures", "signed"] := by
    decide
  have hFields :
      ∀ k, k ∈ fields ↔ k ∈ ["signatures", "signed"] := by
    simp [fields, or_comm]
  have hValue :=
    fun records =>
      @Value.ofTree_object_fields_iff members closed _
        (hAscending records) hLiteral
  simp only [ofTree, bind_eq_ok_iff,
    Json.whenClosed_eq_ok_iff, Draft.finish_eq_ok_iff,
    hValue, List.forall_mem_cons]
  constructor
  · rintro ⟨_, hDraft, _, ⟨hClosed, rfl⟩, rfl⟩
    rcases Draft.read_eq_ok_iff.mp hDraft with
      ⟨hKeys, hSigned, hSignatures⟩
    rcases (readField_of_readsAs readsAs_readSignatures).mp
        hSignatures with
      ⟨records, hRecords, hForm⟩
    exact
      ⟨records, hForm, hClosed,
        fun k hk => (hFields k).mp (hKeys k hk), hRecords,
        hSigned, by simp⟩
  · rintro
      ⟨records, hForm, hClosed, hKeys, hRecords, hSigned, _⟩
    have hSignatures :=
      (readField_of_readsAs readsAs_readSignatures).mpr
        ⟨records, hRecords, hForm⟩
    refine ⟨_, ?_, _, ⟨hClosed, rfl⟩, rfl⟩
    exact
      Draft.read_eq_ok_iff.mpr
        ⟨fun k hk => (hFields k).mpr (hKeys k hk), hSigned,
          hSignatures⟩

/- An envelope is read from an array with their contents. -/
theorem ofTree_array_iff :
    ofTree (.array items closed) = .ok envelope ↔
      ∃ records,
        RecordsForm envelope.signatures records ∧
          Value.ofTree (.array items closed) =
            .ok (.sequence [envelope.signed, records]) := by
  simp only [ofTree, bind_eq_ok_iff, readElement_eq_ok_iff,
    Json.whenClosed_eq_ok_iff, Bool.and_eq_true,
    decide_eq_true_eq, Value.ofTree_array_items_iff]
  constructor
  · rintro ⟨signed, ⟨first, hFirst, hSigned⟩, signatures,
      ⟨second, hSecond, hSignatures⟩, ⟨hClosed, hLength⟩,
      rfl⟩
    have hItems : items = [first, second] := by
      rcases items with _ | ⟨_, _ | ⟨_, rest⟩⟩
      · cases hFirst
      · cases hSecond
      · cases hFirst
        cases hSecond
        simp only [List.length_cons] at hLength
        have hRest : rest.length = 0 := by omega
        rw [List.length_eq_zero_iff.mp hRest]
    rcases (readsAs_readSignatures _ _).mp hSignatures with
      ⟨records, hRecords, hForm⟩
    rw [hItems]
    exact
      ⟨records, hForm, hClosed,
        .cons hSigned (.cons hRecords .nil)⟩
  · rintro ⟨records, hForm, hClosed, hItems⟩
    rcases hItems with _ | ⟨hSigned, _ | ⟨hRecords, ⟨⟩⟩⟩
    have hSignatures :=
      (readsAs_readSignatures _ _).mpr
        ⟨records, hRecords, hForm⟩
    exact
      ⟨_, ⟨_, rfl, hSigned⟩, _, ⟨_, rfl, hSignatures⟩,
        ⟨hClosed, Nat.le_refl 2⟩, rfl⟩

/- An envelope is read from the trees with its forms. -/
theorem readsAs_ofTree : ReadsAs ofTree Form := by
  intro tree envelope
  constructor
  · intro hRead
    cases tree with
    | object members closed =>
        rcases ofTree_object_iff.mp hRead with
          ⟨records, hForm, hValue⟩
        exact ⟨_, hValue, records, hForm, Or.inl rfl⟩
    | array items closed =>
        rcases ofTree_array_iff.mp hRead with
          ⟨records, hForm, hValue⟩
        exact ⟨_, hValue, records, hForm, Or.inr rfl⟩
    | number literal => exact absurd hRead reject_ne_ok
    | _ => cases hRead
  · rintro ⟨_, hValue, records, hForm, rfl | rfl⟩
    · rcases Value.exists_object_of_ofTree hValue with
        ⟨members, closed, rfl⟩
      exact ofTree_object_iff.mpr ⟨records, hForm, hValue⟩
    · rcases Value.exists_array_of_ofTree hValue with
        ⟨items, closed, rfl⟩
      exact ofTree_array_iff.mpr ⟨records, hForm, hValue⟩

/- An envelope is read from a text with one of its forms. -/
theorem ofText_eq_ok_iff
    {text : String} :
    ofText text = .ok envelope ↔
      ∃ v, Value.ofText text = .ok v ∧ envelope.Form v := by
  exact ofDocument_of_readsAs readsAs_ofTree

end Envelope

end SignedMetadata
