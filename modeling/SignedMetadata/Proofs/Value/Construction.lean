import SignedMetadata.Proofs.Canonical.Keys
import SignedMetadata.Proofs.Envelope.Runs
import SignedMetadata.Proofs.Reading.Data
import SignedMetadata.Reading.Datum

/-
  Every value is well formed, however it is built.

  A value is a scalar, a sequence, or the mapping of pairs; it
  is converted from data or read from data or text; it is an
  envelope or its payload; or it is a part of a value.  All of
  these bind members by insertion, and check the ranges of
  integers.  So the keys of every mapping come in the order of
  their bytes, whatever they were built from, and of pairs
  only the keys and what each is given last count.

  Main declarations:
    * `Value.wellFormed_mapping_insert`
    * `Value.wellFormed_of_readJson`
    * `Value.wellFormed_of_readDatum`
    * `Value.Constructed`
    * `Value.Constructed.wellFormed`
    * `Value.ofPairs_eq_iff`
    * `Value.keys_written_in_byte_order`
-/

namespace SignedMetadata

namespace Value

open Fallible

variable {v : Value}
variable {ms : Members Value}

------------------------------------------------------------
-- Mappings
------------------------------------------------------------

/- A mapping is well formed after an insertion. -/
theorem wellFormed_mapping_insert
    {key : String}
    (hMs : (mapping ms).WellFormed)
    (hValue : v.WellFormed) :
    (mapping (Members.insert key v ms)).WellFormed := by
  refine ⟨Members.ascending_insert hMs.1, ?_⟩
  rw [wellFormedMembers_iff]
  exact
    Members.forall_mem_insert (wellFormedMembers_iff.mp hMs.2)
      hValue

/- So is one of well-formed values that are inserted. -/
theorem wellFormed_ofPairs
    {pairs : List (String × Value)}
    (hPairs : ∀ p ∈ pairs, p.2.WellFormed) :
    (ofPairs pairs).WellFormed := by
  have hInserted :
      ∀ ms : Members Value, (mapping ms).WellFormed →
        (mapping
          (pairs.foldl
            (fun members pair =>
              Members.insert pair.1 pair.2 members)
            ms)).WellFormed := by
    induction pairs with
    | nil => exact fun ms hMs => hMs
    | cons p pairs ih =>
        rw [List.forall_mem_cons] at hPairs
        intro ms hMs
        exact
          ih hPairs.2 _
            (wellFormed_mapping_insert hMs hPairs.1)
  exact hInserted [] ⟨Members.ascending_nil, trivial⟩

/- A member by itself is a well-formed mapping. -/
theorem wellFormed_mapping_singleton
    {key : String}
    (hValue : v.WellFormed) :
    (mapping [(key, v)]).WellFormed := by
  exact
    wellFormed_mapping_insert
      ⟨Members.ascending_nil, trivial⟩ hValue

------------------------------------------------------------
-- JSON Data
------------------------------------------------------------

/- The integer of a literal is in range. -/
theorem wellFormed_of_ofLiteral
    {literal : String}
    (hLiteral : ofLiteral literal = .ok v) :
    v.WellFormed := by
  unfold ofLiteral at hLiteral
  split at hLiteral
  · rename_i i hInteger
    cases hLiteral
    exact (integerOfLiteral_eq_ok_iff.mp hInteger).2
  · cases hLiteral
  · cases hLiteral

/- So is one that a member hands over. -/
theorem wellFormed_of_ofLiteralMember
    {json : Json}
    {others : Nat}
    (hMember : ofLiteralMember json others = .ok v) :
    v.WellFormed := by
  cases json with
  | string literal =>
      rw [ofLiteralMember, bind_eq_ok_iff] at hMember
      rcases hMember with ⟨w, hLiteral, hAlone⟩
      split_ifs at hAlone
      cases hAlone
      exact wellFormed_of_ofLiteral hLiteral
  | _ => cases hMember

mutual

/- A value that is read from JSON data is well formed. -/
theorem wellFormed_of_readJson
    (json : Json)
    {v : Value}
    (hRead : readJson json = .ok v) :
    v.WellFormed := by
  cases json with
  | null =>
      cases hRead
      exact trivial
  | bool b =>
      cases hRead
      exact trivial
  | number literal =>
      rcases ofNumber_eq_ok_iff.mp hRead with
        ⟨i, hInteger, rfl⟩
      exact (integerOfLiteral_eq_ok_iff.mp hInteger).2
  | string text =>
      cases hRead
      exact trivial
  | array items =>
      rcases readJson_array_iff.mp hRead with ⟨vs, hVs, rfl⟩
      exact wellFormed_of_readJsonItems items hVs
  | object members =>
      cases members with
      | nil =>
          cases hRead
          exact ⟨Members.ascending_nil, trivial⟩
      | cons member rest =>
          rcases member with ⟨key, json⟩
          rw [readJson] at hRead
          split_ifs at hRead with hKey
          · exact wellFormed_of_ofLiteralMember hRead
          · simp only [bind_eq_ok_iff, return_eq_ok_iff]
              at hRead
            rcases hRead with ⟨w, hFirst, ms, hMs, rfl⟩
            exact
              wellFormed_of_readJsonMembers rest
                (wellFormed_mapping_singleton
                  (wellFormed_of_readJson json hFirst))
                hMs

/- So are the elements that are read. -/
theorem wellFormed_of_readJsonItems
    (items : List Json)
    {vs : List Value}
    (hRead : readJsonItems items = .ok vs) :
    WellFormedItems vs := by
  cases items with
  | nil =>
      cases hRead
      exact trivial
  | cons json items =>
      rcases readJsonItems_cons_iff.mp hRead with
        ⟨first, hFirst, rest, hRest, rfl⟩
      exact
        ⟨wellFormed_of_readJson json hFirst,
          wellFormed_of_readJsonItems items hRest⟩

/- So are the members, behind others that are. -/
theorem wellFormed_of_readJsonMembers
    (members : List (String × Json))
    {read ms : Members Value}
    (hBefore : (mapping read).WellFormed)
    (hRead : readJsonMembers read members = .ok ms) :
    (mapping ms).WellFormed := by
  cases members with
  | nil =>
      cases hRead
      exact hBefore
  | cons member rest =>
      rcases readJsonMembers_cons_iff.mp hRead with
        ⟨v, hValue, _, hRest⟩
      exact
        wellFormed_of_readJsonMembers rest
          (wellFormed_mapping_insert hBefore
            (wellFormed_of_readJson member.2 hValue))
          hRest

end

------------------------------------------------------------
-- Typed Data
------------------------------------------------------------

/- The integer that an entry hands over is in range. -/
theorem wellFormed_of_ofLiteralDatum
    {datum : Datum}
    {others : Nat}
    (hEntry : ofLiteralDatum datum others = .ok v) :
    v.WellFormed := by
  cases datum with
  | string literal =>
      rw [ofLiteralDatum, bind_eq_ok_iff] at hEntry
      rcases hEntry with ⟨w, hLiteral, hAlone⟩
      split_ifs at hAlone
      cases hAlone
      exact wellFormed_of_ofLiteral hLiteral
  | _ => cases hEntry

mutual

/- A value that is read from typed data is well formed. -/
theorem wellFormed_of_readDatum
    (datum : Datum)
    {v : Value}
    (hRead : readDatum datum = .ok v) :
    v.WellFormed := by
  cases datum with
  | unit =>
      cases hRead
      exact trivial
  | bool b =>
      cases hRead
      exact trivial
  | char c =>
      cases hRead
      exact trivial
  | string text =>
      cases hRead
      exact trivial
  | absent =>
      cases hRead
      exact trivial
  | integer i =>
      rw [readDatum] at hRead
      split_ifs at hRead with hRange
      cases hRead
      exact hRange
  | present datum =>
      rw [readDatum] at hRead
      exact wellFormed_of_readDatum datum hRead
  | sequence items =>
      rw [readDatum] at hRead
      simp only [bind_eq_ok_iff, return_eq_ok_iff] at hRead
      rcases hRead with ⟨vs, hVs, rfl⟩
      exact wellFormed_of_readItems items hVs
  | map entries =>
      cases entries with
      | nil =>
          cases hRead
          exact ⟨Members.ascending_nil, trivial⟩
      | cons entry rest =>
          rcases entry with ⟨key, datum⟩
          rw [readDatum, bind_eq_ok_iff] at hRead
          rcases hRead with ⟨text, _, hRead⟩
          split_ifs at hRead with hKey
          · exact wellFormed_of_ofLiteralDatum hRead
          · simp only [bind_eq_ok_iff, return_eq_ok_iff]
              at hRead
            rcases hRead with ⟨w, hFirst, ms, hMs, rfl⟩
            exact
              wellFormed_of_readEntries rest
                (wellFormed_mapping_singleton
                  (wellFormed_of_readDatum datum hFirst))
                hMs
  | _ => cases hRead

/- So are the elements that are read. -/
theorem wellFormed_of_readItems
    (items : List Datum)
    {vs : List Value}
    (hRead : readItems items = .ok vs) :
    WellFormedItems vs := by
  cases items with
  | nil =>
      cases hRead
      exact trivial
  | cons datum items =>
      rw [readItems] at hRead
      simp only [bind_eq_ok_iff, return_eq_ok_iff] at hRead
      rcases hRead with ⟨first, hFirst, rest, hRest, rfl⟩
      exact
        ⟨wellFormed_of_readDatum datum hFirst,
          wellFormed_of_readItems items hRest⟩

/- So are the entries, behind others that are. -/
theorem wellFormed_of_readEntries
    (entries : List (Datum × Datum))
    {read ms : Members Value}
    (hBefore : (mapping read).WellFormed)
    (hRead : readEntries read entries = .ok ms) :
    (mapping ms).WellFormed := by
  cases entries with
  | nil =>
      cases hRead
      exact hBefore
  | cons entry rest =>
      rcases entry with ⟨key, datum⟩
      simp only [readEntries, bind_eq_ok_iff,
        guard_eq_ok_iff] at hRead
      rcases hRead with ⟨text, _, v, hValue, _, hRest⟩
      exact
        wellFormed_of_readEntries rest
          (wellFormed_mapping_insert hBefore
            (wellFormed_of_readDatum datum hValue))
          hRest

end

------------------------------------------------------------
-- Constructed Values
------------------------------------------------------------

/- The ways to come by a value. -/
inductive Constructed : Value → Prop where
| null : Constructed .null
| bool (b : Bool) : Constructed (.bool b)
| integer {i : Int} (hRange : InRange i) :
    Constructed (.integer i)
| string (s : String) : Constructed (.string s)
| sequence
    {items : List Value}
    (hItems : ∀ v ∈ items, Constructed v) :
    Constructed (.sequence items)
| pairs
    {pairs : List (String × Value)}
    (hPairs : ∀ p ∈ pairs, Constructed p.2) :
    Constructed (ofPairs pairs)
| json
    {limits : Limits} {json : Json} {v : Value}
    (hConverted : ofJson limits json = .ok v) :
    Constructed v
| datum
    {datum : Datum} {v : Value}
    (hConverted : ofDatum datum = .ok v) :
    Constructed v
| readText
    {text : String} {v : Value}
    (hRead : ofText text = .ok v) :
    Constructed v
| readJson
    {json : Json} {v : Value}
    (hRead : Value.readJson json = .ok v) :
    Constructed v
| readDatum
    {datum : Datum} {v : Value}
    (hRead : Value.readDatum datum = .ok v) :
    Constructed v
| envelope
    {envelope : Envelope}
    (hPayload : Constructed envelope.signed) :
    Constructed envelope.toValue
| envelopeText
    {text : String} {envelope : Envelope}
    (hRead : Envelope.ofText text = .ok envelope) :
    Constructed envelope.signed
| payload
    {v : Value} {envelope : Envelope}
    (hValue : Constructed v)
    (hRead : Envelope.ofValue v = .ok envelope) :
    Constructed envelope.signed
| wrapped
    {v : Value} {envelope : Envelope}
    (hValue : Constructed v)
    (hWrap : Envelope.wrap v = .ok envelope) :
    Constructed envelope.signed
| item
    {items : List Value} {v : Value}
    (hSequence : Constructed (.sequence items))
    (hItem : v ∈ items) :
    Constructed v
| member
    {members : Members Value} {member : String × Value}
    (hMapping : Constructed (.mapping members))
    (hMember : member ∈ members) :
    Constructed member.2

/- Every value is well formed. -/
theorem Constructed.wellFormed
    (hConstructed : v.Constructed) :
    v.WellFormed := by
  induction hConstructed with
  | null => exact trivial
  | bool b => exact trivial
  | integer hRange => exact hRange
  | string s => exact trivial
  | sequence _ ih => exact wellFormedItems_iff.mpr ih
  | pairs _ ih => exact wellFormed_ofPairs ih
  | json hConverted =>
      exact (within_of_ofJsonAt _ _ hConverted).1
  | datum hConverted =>
      rw [ofDatum, bind_eq_ok_iff] at hConverted
      rcases hConverted with ⟨json, _, hConverted⟩
      exact (within_of_ofJsonAt _ _ hConverted).1
  | readText hRead => exact wellFormed_of_ofText hRead
  | readJson hRead => exact wellFormed_of_readJson _ hRead
  | readDatum hRead => exact wellFormed_of_readDatum _ hRead
  | envelope _ ih =>
      exact Envelope.wellFormed_toValue_iff.mpr ih
  | envelopeText hRead =>
      exact (Envelope.Obtained.ofText hRead).wellFormed
  | payload _ hRead ih =>
      exact (Envelope.Obtained.ofValue ih hRead).wellFormed
  | wrapped _ hWrap ih =>
      exact (Envelope.Obtained.wrap ih hWrap).wellFormed
  | item _ hItem ih =>
      exact wellFormedItems_iff.mp ih _ hItem
  | member _ hMember ih =>
      exact wellFormedMembers_iff.mp ih.2 _ hMember

------------------------------------------------------------
-- Order of Keys
------------------------------------------------------------

/-
  Pairs build equal values exactly if they have the same keys
  and give each of them the same value last.
-/
theorem ofPairs_eq_iff
    {ps qs : List (String × Value)} :
    ofPairs ps = ofPairs qs ↔
      (∀ key,
        key ∈ Members.keys ps ↔ key ∈ Members.keys qs) ∧
        ∀ key ∈ Members.keys ps,
          Members.last? ps key = Members.last? qs key := by
  rw [ofPairs, ofPairs, mapping.injEq, Members.ofList_eq_iff]
  constructor
  · intro hLast
    refine ⟨?_, fun key _ => hLast key⟩
    intro key
    rw [← not_iff_not, ← Members.last?_eq_none_iff,
      ← Members.last?_eq_none_iff, hLast]
  · rintro ⟨hKeys, hLast⟩ key
    by_cases hKey : key ∈ Members.keys ps
    · exact hLast key hKey
    · rw [Members.last?_eq_none_iff.mpr hKey]
      rw [hKeys] at hKey
      exact (Members.last?_eq_none_iff.mpr hKey).symm

/-
  In the canonical text of a value, however it was built, the
  keys that stand between two braces are those of one of its
  mappings, and their bytes are strictly ascending.  Values of
  pairs are equal exactly if the pairs have the same keys and
  give each the same value last.
-/
theorem keys_written_in_byte_order :
    (∀ v : Value, v.Constructed →
      ∀ (limits : Limits) (text : String),
        Canonical.encode limits v = .ok text →
          Canonical.writtenKeys text = v.mappingKeys ∧
            ∀ keys ∈ Canonical.writtenKeys text,
              (keys.map Text.bytes).Pairwise (· < ·)) ∧
      ∀ ps qs : List (String × Value),
        ofPairs ps = ofPairs qs ↔
          (∀ key,
            key ∈ Members.keys ps ↔ key ∈ Members.keys qs) ∧
            ∀ key ∈ Members.keys ps,
              Members.last? ps key =
                Members.last? qs key := by
  refine ⟨?_, fun ps qs => ofPairs_eq_iff⟩
  intro v hConstructed limits text hEncode
  have hWritten :
      Canonical.writtenKeys text = v.mappingKeys := by
    rw [Canonical.eq_ofValue_of_encode hEncode,
      Canonical.writtenKeys_ofValue]
  refine ⟨hWritten, ?_⟩
  intro keys hKeys
  rw [hWritten] at hKeys
  exact
    pairwise_bytes_of_mem_mappingKeys hConstructed.wellFormed
      hKeys

/-
  Pairs with a repeated key, one that must be escaped, and two
  that compare otherwise by code units of 16 bits.
-/
def unorderedPairs : List (String × Value) :=
  [("a#", .null), ("😀", .bool true), ("a\"", .integer 1),
    ("\uffff", .sequence []), ("a", .null), ("a\"", .null)]

/- The text of their value. -/
def orderedText : String :=
  "\x7b\"a\":null,\"a\\\"\":null,\"a#\":null," ++
    "\"\uffff\":[],\"😀\":true\x7d"

/- They come out in the order of their bytes, unescaped. -/
theorem keys_written_in_byte_order_unicode :
    (ofPairs unorderedPairs).Constructed ∧
      Canonical.encode .standard (ofPairs unorderedPairs) =
        .ok orderedText ∧
      Canonical.writtenKeys orderedText =
        [["a", "a\"", "a#", "\uffff", "😀"]] ∧
      (["a", "a\"", "a#", "\uffff", "😀"].map
        Text.bytes).Pairwise (· < ·) := by
  have hConstructed :
      (ofPairs unorderedPairs).Constructed := by
    apply Constructed.pairs
    simp only [unorderedPairs, List.forall_mem_cons]
    exact
      ⟨.null, .bool true, .integer (by decide),
        .sequence (List.forall_mem_nil _), .null, .null,
        List.forall_mem_nil _⟩
  have hEncode :
      Canonical.encode .standard (ofPairs unorderedPairs) =
        .ok orderedText := by
    decide +kernel
  have hKeys :
      Canonical.writtenKeys orderedText =
        [["a", "a\"", "a#", "\uffff", "😀"]] := by
    decide +kernel
  rcases keys_written_in_byte_order.1 _ hConstructed _ _
      hEncode with
    ⟨_, hOrder⟩
  refine ⟨hConstructed, hEncode, hKeys, hOrder _ ?_⟩
  rw [hKeys]
  exact List.mem_singleton_self _

end Value

end SignedMetadata
