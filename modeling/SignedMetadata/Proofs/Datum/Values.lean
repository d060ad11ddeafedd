import SignedMetadata.Datum
import SignedMetadata.Proofs.Canonical.Measure
import SignedMetadata.Proofs.Fallible
import SignedMetadata.Proofs.Json.Printing
import SignedMetadata.Proofs.Members
import SignedMetadata.Proofs.Reading.Literals

/-
  Values that are written as data and read back.

  A value is written without fault: its integers become
  literals and its keys are texts.  Reading the data back
  checks its depth again, in the order of the containers of
  the value, and gives the value.  Encoding it this way
  therefore differs from encoding it directly in one thing
  only: the depth limit is checked before the size limit.

  Main declarations:
    * `Limits.accept`
    * `Value.toJson_toDatum`
    * `Value.ofJsonAt_toJson`
    * `Canonical.encodeDatum_agrees_with_encode`
-/

namespace SignedMetadata

open Value (firstAt firstAt_append firstAt_cons)

------------------------------------------------------------
-- Places within the Depth Limit
------------------------------------------------------------

namespace Limits

variable {α β : Type}
variable {limits : Limits}
variable {path : Path}
variable {places places' : List Path}

/-
  A part with containers at some places is accepted unless
  one of them lies at the depth limit; the first that does
  is reported.
-/
def accept
    (limits : Limits)
    (places : List Path)
    (part : α) : Except EncodeError α :=
  match firstAt limits.maxDepth places with
  | none => .ok part
  | some path => .error (.tooDeep path limits.maxDepth)

/- A part without containers is accepted. -/
theorem accept_nil (part : α) :
    limits.accept [] part = .ok part := by
  rfl

/- A part without a container at the limit is accepted. -/
theorem accept_of_none
    (part : α)
    (hNone : firstAt limits.maxDepth places = none) :
    limits.accept places part = .ok part := by
  rw [accept, hNone]

/- The first container at the limit is reported. -/
theorem accept_of_some
    (part : α)
    (hSome : firstAt limits.maxDepth places = some path) :
    limits.accept places part =
      .error (.tooDeep path limits.maxDepth) := by
  rw [accept, hSome]

/- Parts accepted one after another are accepted together. -/
theorem accept_bind
    {first : α}
    {whole : β}
    {next : α → Except EncodeError β}
    (hNext : next first = limits.accept places' whole) :
    (limits.accept places first >>= next) =
      limits.accept (places ++ places') whole := by
  cases hFirst : firstAt limits.maxDepth places with
  | none =>
      rw [accept_of_none first hFirst]
      change next first = _
      rw [hNext, accept, accept, firstAt_append, hFirst,
        Option.none_or]
  | some path =>
      rw [accept_of_some first hFirst]
      refine (accept_of_some whole ?_).symm
      rw [firstAt_append, hFirst, Option.some_or]

/- What is made of an accepted part is accepted. -/
theorem accept_map
    (part : α)
    (make : α → β) :
    (limits.accept places part >>= fun a => pure (make a)) =
      limits.accept places (make part) := by
  rw [accept, accept]
  cases firstAt limits.maxDepth places <;> rfl

/-
  A container is entered unless it lies at the depth limit,
  which no container above it does.
-/
theorem accept_enter
    {whole : α}
    {content : Except EncodeError α}
    (hPath : path.length ≤ limits.maxDepth)
    (hContent :
      path.length < limits.maxDepth →
        content = limits.accept places whole) :
    (limits.enter path >>= fun _ => content) =
      limits.accept (path :: places) whole := by
  by_cases hDeep : limits.maxDepth ≤ path.length
  · have hHere : path.length = limits.maxDepth := by omega
    rw [enter, if_pos hDeep]
    refine (accept_of_some whole ?_).symm
    rw [firstAt_cons, if_pos hHere]
  · have hElsewhere : path.length ≠ limits.maxDepth := by
      omega
    rw [enter, if_neg hDeep, hContent (by omega)]
    change limits.accept places whole = _
    rw [accept, accept, firstAt_cons, if_neg hElsewhere]

end Limits

------------------------------------------------------------
-- Writing Values
------------------------------------------------------------

namespace Value

/- A key between others is inserted behind the lesser ones. -/
theorem insert_greatest
    {α β : Type}
    {k : String}
    {b : β}
    {read : Members α}
    {ms : Members β}
    (a : α)
    (hKeys :
      (Members.keys read ++
        Members.keys ((k, b) :: ms)).Pairwise (· < ·)) :
    Members.insert k a read = read ++ [(k, a)] ∧
      (Members.keys (read ++ [(k, a)]) ++
        Members.keys ms).Pairwise (· < ·) := by
  have hGreater : ∀ l ∈ Members.keys read, l < k := by
    intro l hl
    exact
      (List.pairwise_append.mp hKeys).2.2 l hl k
        List.mem_cons_self
  refine ⟨Members.insert_eq_append hGreater, ?_⟩
  simpa using hKeys

mutual

/- A well-formed value is written without fault. -/
theorem toJson_toDatum
    (v : Value)
    (hWell : v.WellFormed) :
    v.toDatum.toJson = .ok v.toJson := by
  cases v with
  | sequence items =>
      rw [toDatum, Datum.toJson,
        toJsonItems_toDatumItems items hWell]
      rfl
  | mapping members =>
      have hKeys :
          (Members.keys ([] : Members Json) ++
            Members.keys members).Pairwise (· < ·) :=
        hWell.1
      rw [toDatum, Datum.toJson,
        toJsonEntries_toDatumEntries [] members hKeys
          hWell.2]
      rfl
  | _ => rfl

/- Well-formed elements are written without fault. -/
theorem toJsonItems_toDatumItems
    (vs : List Value)
    (hWell : WellFormedItems vs) :
    Datum.toJsonItems (toDatumItems vs) =
      .ok (toJsonItems vs) := by
  cases vs with
  | nil => rfl
  | cons v vs =>
      rw [toDatumItems, Datum.toJsonItems,
        toJson_toDatum v hWell.1,
        toJsonItems_toDatumItems vs hWell.2]
      rfl

/- Members with greater keys are written behind others. -/
theorem toJsonEntries_toDatumEntries
    (read : Members Json)
    (ms : List (String × Value))
    (hKeys :
      (Members.keys read ++ Members.keys ms).Pairwise
        (· < ·))
    (hWell : WellFormedMembers ms) :
    Datum.toJsonEntries read (toDatumEntries ms) =
      .ok (read ++ toJsonMembers ms) := by
  cases ms with
  | nil =>
      rw [toJsonMembers, List.append_nil]
      rfl
  | cons m ms =>
      rcases m with ⟨k, v⟩
      rcases insert_greatest v.toJson hKeys with
        ⟨hInsert, hRest⟩
      rw [toDatumEntries, Datum.toJsonEntries, Datum.keyText,
        toJson_toDatum v hWell.1]
      change
        Datum.toJsonEntries
            (Members.insert k v.toJson read)
            (toDatumEntries ms) = _
      rw [hInsert,
        toJsonEntries_toDatumEntries _ ms hRest hWell.2,
        List.append_assoc]
      rfl

end

------------------------------------------------------------
-- Reading Values Back
------------------------------------------------------------

variable {limits : Limits}

mutual

/- Data is read back as the value that it was written for. -/
theorem ofJsonAt_toJson
    (path : Path)
    (v : Value)
    (hWell : v.WellFormed)
    (hPath : path.length ≤ limits.maxDepth) :
    ofJsonAt limits path v.toJson =
      limits.accept (containers path v) v := by
  cases v with
  | integer i =>
      have hInteger :
          integerOfLiteral (Text.ofInteger i) = .ok i :=
        integerOfLiteral_of_numeral
          (Json.numeral_ofInteger i) hWell
      rw [toJson, ofJsonAt, ofLiteralAt, hInteger]
      rfl
  | sequence items =>
      rw [toJson, ofJsonAt, containers]
      apply Limits.accept_enter hPath
      intro hBelow
      rw [ofJsonItems_toJsonItems path 0 items hWell hBelow,
        Limits.accept_map]
  | mapping members =>
      have hKeys :
          (Members.keys ([] : Members Value) ++
            Members.keys members).Pairwise (· < ·) :=
        hWell.1
      rw [toJson, ofJsonAt, containers]
      apply Limits.accept_enter hPath
      intro hBelow
      rw [ofJsonMembers_toJsonMembers path [] members hKeys
          hWell.2 hBelow,
        Limits.accept_map, List.nil_append]
  | _ => rfl

/- Elements are read back. -/
theorem ofJsonItems_toJsonItems
    (path : Path)
    (position : Nat)
    (vs : List Value)
    (hWell : WellFormedItems vs)
    (hPath : path.length < limits.maxDepth) :
    ofJsonItems limits path position (toJsonItems vs) =
      limits.accept (itemContainers path position vs) vs := by
  cases vs with
  | nil => rfl
  | cons v vs =>
      have hInside :
          (path.index position).length ≤ limits.maxDepth := by
        rw [length_index]
        exact hPath
      rw [toJsonItems, ofJsonItems, itemContainers,
        ofJsonAt_toJson (path.index position) v hWell.1
          hInside]
      apply Limits.accept_bind
      rw [ofJsonItems_toJsonItems path (position + 1) vs
          hWell.2 hPath,
        Limits.accept_map]

/- Members are read back behind those with lesser keys. -/
theorem ofJsonMembers_toJsonMembers
    (path : Path)
    (read : Members Value)
    (ms : List (String × Value))
    (hKeys :
      (Members.keys read ++ Members.keys ms).Pairwise
        (· < ·))
    (hWell : WellFormedMembers ms)
    (hPath : path.length < limits.maxDepth) :
    ofJsonMembers limits path read (toJsonMembers ms) =
      limits.accept (memberContainers path ms)
        (read ++ ms) := by
  cases ms with
  | nil =>
      rw [toJsonMembers, ofJsonMembers, memberContainers,
        List.append_nil, Limits.accept_nil]
  | cons m ms =>
      rcases m with ⟨k, v⟩
      rcases insert_greatest v hKeys with
        ⟨hInsert, hRest⟩
      have hInside :
          (path.field k).length ≤ limits.maxDepth := by
        rw [length_field]
        exact hPath
      rw [toJsonMembers, ofJsonMembers, memberContainers,
        ofJsonAt_toJson (path.field k) v hWell.1 hInside]
      apply Limits.accept_bind
      rw [hInsert,
        ofJsonMembers_toJsonMembers path _ ms hRest hWell.2
          hPath,
        List.append_assoc, List.singleton_append]

end

/- A value is read back from its data unless it is too deep. -/
theorem ofJson_toJson
    (limits : Limits)
    {v : Value}
    (hWell : v.WellFormed) :
    ofJson limits v.toJson =
      limits.accept (containers Path.root v) v := by
  exact
    ofJsonAt_toJson Path.root v hWell (Nat.zero_le _)

/- Under the standard limits it is if 64 levels suffice. -/
theorem ofDatum_toDatum_iff
    {v : Value}
    (hWell : v.WellFormed) :
    ofDatum v.toDatum = .ok v ↔ v.depth ≤ 64 := by
  rw [← firstContainerAt_eq_none_iff, ofDatum,
    toJson_toDatum v hWell]
  change ofJson .standard v.toJson = _ ↔ _
  rw [ofJson_toJson .standard hWell]
  cases hFirst : firstContainerAt 64 v with
  | none =>
      exact iff_of_true (Limits.accept_of_none v hFirst) rfl
  | some path =>
      have hSome :
          firstAt Limits.standard.maxDepth
            (containers Path.root v) = some path :=
        hFirst
      rw [Limits.accept_of_some v hSome]
      exact iff_of_false (by rintro ⟨⟩) (by rintro ⟨⟩)

end Value

------------------------------------------------------------
-- Encoding
------------------------------------------------------------

namespace Canonical

/- A value is encoded as data after its depth is checked. -/
theorem encodeDatum_toDatum
    (limits : Limits)
    {v : Value}
    (hWell : v.WellFormed) :
    encodeDatum limits v.toDatum =
      (limits.accept (Value.containers Path.root v) v >>=
        encode limits) := by
  rw [encodeDatum, Value.toJson_toDatum v hWell]
  change encodeJson limits v.toJson = _
  rw [encodeJson, Value.ofJson_toJson limits hWell]

/- Within the depth limit nothing else is different. -/
theorem encodeDatum_of_depth_le
    {limits : Limits}
    {v : Value}
    (hWell : v.WellFormed)
    (hDepth : v.depth ≤ limits.maxDepth) :
    encodeDatum limits v.toDatum = encode limits v := by
  have hNone :=
    (Value.firstContainerAt_eq_none_iff _ v).mpr hDepth
  rw [encodeDatum_toDatum limits hWell,
    Limits.accept_of_none v hNone]
  rfl

/- A value that is too deep has a first container at fault. -/
theorem exists_firstContainerAt
    {limits : Limits}
    {v : Value}
    (hDeep : limits.maxDepth < v.depth) :
    ∃ path, v.firstContainerAt limits.maxDepth = some path := by
  apply Option.ne_none_iff_exists'.mp
  rw [Ne, Value.firstContainerAt_eq_none_iff]
  exact Nat.not_le_of_lt hDeep

/- What is encoded is not too deep. -/
theorem depth_le_of_encode
    {limits : Limits}
    {v : Value}
    {text : String}
    (hEncode : encode limits v = .ok text) :
    v.depth ≤ limits.maxDepth := by
  rcases Fallible.bind_eq_ok_iff.mp hEncode with
    ⟨n, hLength, _⟩
  exact (length_eq_ok_iff.mp hLength).1

/- The first such container is reported if the text fits. -/
theorem encode_of_deep
    {limits : Limits}
    {v : Value}
    {path : Path}
    (hPath :
      v.firstContainerAt limits.maxDepth = some path)
    (hSize : size v ≤ limits.maxBytes) :
    encode limits v =
      .error (.tooDeep path limits.maxDepth) := by
  cases hLength : length limits v with
  | ok n =>
      have hShallow := (length_eq_ok_iff.mp hLength).1
      rw [← Value.firstContainerAt_eq_none_iff, hPath]
        at hShallow
      cases hShallow
  | error cause =>
      rcases fault_of_length_eq_error hLength with
        ⟨_, first, hFirst, rfl⟩ | ⟨hLarge, _⟩
      · rw [hPath] at hFirst
        rw [Option.some.inj hFirst, encode, hLength]
        rfl
      · exact absurd hSize (Nat.not_le_of_lt hLarge)

/-
  Encoding a value as data agrees with encoding it directly:
  both succeed with the same text.  A value that is too deep
  is rejected as data with its first container at the limit,
  which is also what is reported directly when there is no
  limit on the size; one that is only too long is rejected
  alike.  It comes back from its data within 64 levels.
-/
theorem encodeDatum_agrees_with_encode
    (limits : Limits)
    {v : Value}
    (hWell : v.WellFormed) :
    (∀ text,
      encodeDatum limits v.toDatum = .ok text ↔
        encode limits v = .ok text) ∧
    (limits.maxDepth < v.depth →
      ∃ path,
        v.firstContainerAt limits.maxDepth = some path ∧
          encodeDatum limits v.toDatum =
            .error (.tooDeep path limits.maxDepth) ∧
          ∀ maxBytes,
            (Text.bytes (ofValue v)).length ≤ maxBytes →
              encode ⟨limits.maxDepth, maxBytes⟩ v =
                .error (.tooDeep path limits.maxDepth)) ∧
    (v.depth ≤ limits.maxDepth →
      limits.maxBytes < (Text.bytes (ofValue v)).length →
        encodeDatum limits v.toDatum =
            .error (.tooLarge limits.maxBytes) ∧
          encode limits v =
            .error (.tooLarge limits.maxBytes)) ∧
    (Value.ofDatum v.toDatum = .ok v ↔ v.depth ≤ 64) := by
  have hDeep :
      limits.maxDepth < v.depth →
        ∃ path,
          v.firstContainerAt limits.maxDepth = some path ∧
            encodeDatum limits v.toDatum =
              .error (.tooDeep path limits.maxDepth) := by
    intro hDepth
    rcases exists_firstContainerAt hDepth with ⟨path, hPath⟩
    refine ⟨path, hPath, ?_⟩
    rw [encodeDatum_toDatum limits hWell,
      Limits.accept_of_some v hPath]
    rfl
  refine ⟨?_, ?_, ?_, Value.ofDatum_toDatum_iff hWell⟩
  · intro text
    by_cases hDepth : v.depth ≤ limits.maxDepth
    · rw [encodeDatum_of_depth_le hWell hDepth]
    · rcases hDeep (Nat.lt_of_not_le hDepth) with
        ⟨path, _, hDatum⟩
      rw [hDatum]
      apply iff_of_false
      · rintro ⟨⟩
      · intro hEncode
        exact hDepth (depth_le_of_encode hEncode)
  · intro hDepth
    rcases hDeep hDepth with ⟨path, hPath, hDatum⟩
    exact ⟨path, hPath, hDatum, fun maxBytes hSize =>
      encode_of_deep hPath hSize⟩
  · intro hDepth hLarge
    have hSize : ¬ size v ≤ limits.maxBytes :=
      Nat.not_le_of_lt hLarge
    have hEncode := encode_of_depth_le hDepth
    rw [if_neg hSize] at hEncode
    rw [encodeDatum_of_depth_le hWell hDepth]
    exact ⟨hEncode, hEncode⟩

/-
  A value that is too deep and too long, below the key under
  which literals are passed: the routes report either fault.
-/
theorem encodeDatum_agrees_with_encode_deep :
    ∃ v : Value,
      v =
          .mapping [(literalKey,
            .sequence [.integer Value.minInteger,
              .mapping []])] ∧
        v.WellFormed ∧
        encode ⟨2, 40⟩ v = .error (.tooLarge 40) ∧
        encodeDatum ⟨2, 40⟩ v.toDatum =
          .error (.tooDeep [.field literalKey, .index 1] 2) ∧
        encode ⟨2, 100⟩ v =
          .error (.tooDeep [.field literalKey, .index 1] 2) ∧
        Value.ofDatum v.toDatum = .ok v := by
  have hWell :
      Value.WellFormed
        (.mapping [(literalKey,
          .sequence [.integer Value.minInteger,
            .mapping []])]) := by
    have hLeast : Value.InRange Value.minInteger := by
      decide
    have hEmpty :
        Members.Ascending ([] : Members Value) :=
      Members.ascending_nil
    exact
      ⟨by decide,
        ⟨hLeast, ⟨hEmpty, trivial⟩, trivial⟩, trivial⟩
  rcases encodeDatum_agrees_with_encode ⟨2, 40⟩ hWell with
    ⟨_, hDeep, _, hBack⟩
  rcases hDeep (by decide) with
    ⟨path, hPath, hDatum, hEncode⟩
  have hPlace : [.field literalKey, .index 1] = path :=
    Option.some.inj hPath
  subst hPlace
  refine ⟨_, rfl, hWell, ?_, hDatum, ?_, ?_⟩
  · decide +kernel
  · exact hEncode 100 (by decide +kernel)
  · exact hBack.mpr (by decide)

end Canonical

end SignedMetadata
