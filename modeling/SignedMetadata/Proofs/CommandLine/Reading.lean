import SignedMetadata.CommandLine.Run
import SignedMetadata.Proofs.Envelope.Data
import SignedMetadata.Proofs.Json.Nesting
import SignedMetadata.Proofs.Reading.Acceptance
import SignedMetadata.Proofs.Reading.Bounds
import SignedMetadata.Proofs.Reading.Distinct
import SignedMetadata.Proofs.Text.Utf8

/-
  What commands read from their input.

  A text is read by way of the tree of its root.  A text that
  spells the tokens of a tree of a value is read as the value
  if that does not nest too deep, and is not read at all if
  it does.  So a printed envelope is read as itself, if there
  is room for it.

  Main declarations:
    * `valueOfText_eq_ok_iff`
    * `within_of_valueOfText`
    * `valueOfText_of_spelledTokens_iff`
    * `Environment.withInput`
    * `readEnvelope_printed_iff`
-/

namespace SignedMetadata

namespace CommandLine

open Fallible
open Json (Tree Document SpelledTokens)

variable {environment : Environment}
variable {limits : Limits}
variable {input : Option String}
variable {text : String}
variable {v : Value}
variable {envelope : Envelope}

------------------------------------------------------------
-- Texts
------------------------------------------------------------

/- A text writes a value by way of the tree of its root. -/
theorem valueOfText_eq_ok_iff
    {text : String}
    {v : Value} :
    valueOfText limits text = .ok v ↔
      (Json.Document.ofText text).trailing = false ∧
        Json.checkKeys (Json.Document.ofText text).root =
            .ok () ∧
          ∃ json,
            Json.ofTree (Json.Document.ofText text).root =
                .ok json ∧
              Value.ofJsonAt limits Path.root json =
                .ok v := by
  rw [valueOfText, check_eq_ok_iff]
  simp only [bind_eq_ok_iff, mapError_eq_ok_iff,
    Json.checkText_eq_ok_iff, Json.ofText_eq_ok_iff,
    Value.ofJson]
  constructor
  · rintro ⟨⟨hEnd, hKeys⟩, json, ⟨_, hJson⟩, hValue⟩
    exact ⟨hEnd, hKeys, json, hJson, hValue⟩
  · rintro ⟨hEnd, hKeys, json, hJson, hValue⟩
    exact ⟨⟨hEnd, hKeys⟩, json, ⟨hEnd, hJson⟩, hValue⟩

/- What is read is well formed and does not nest too deep. -/
theorem within_of_valueOfText
    (hValue : valueOfText limits text = .ok v) :
    v.Within (min limits.maxDepth Json.maxOpen) := by
  rcases valueOfText_eq_ok_iff.mp hValue with
    ⟨_, hKeys, json, hJson, hConvert⟩
  have hLimit :=
    Value.within_of_ofJsonAt Path.root json hConvert
  have hResolved :=
    Value.within_of_ofTree _
      (Value.ofTree_resolved _ hKeys hJson hConvert)
  have hTree :=
    (Document.ofText text).root.depth_resolved_le
  have hDocument := Json.depth_ofText_le text
  refine ⟨hLimit.1, Nat.le_min.mpr ⟨hLimit.2, ?_⟩⟩
  exact (hResolved.2.trans hTree).trans hDocument

/-
  A text that spells the tokens of a plain tree of a value is
  read as this value, and only if there is room for it.
-/
theorem valueOfText_of_spelledTokens_iff
    {tree : Tree}
    {w : Value}
    (hText : SpelledTokens tree.tokens text.toList)
    (hHolds : tree.Holds v)
    (hWell : v.WellFormed)
    (hPlain : tree.Plain) :
    valueOfText limits text = .ok w ↔
      v.depth ≤ min limits.maxDepth Json.maxOpen ∧
        v = w := by
  have hComplete := tree.complete_of_holds hHolds
  have hDepths := tree.depth_of_holds hHolds
  have hAccepted :=
    Value.accepted_of_holds tree hHolds hWell hPlain
  have hV := hAccepted.ofTree_resolved
  rcases hAccepted with ⟨hKeys, json, hJson, hValue⟩
  constructor
  · intro hRead
    have hBound := (within_of_valueOfText hRead).2
    rcases valueOfText_eq_ok_iff.mp hRead with
      ⟨_, hRootKeys, json', hJson', hConvert⟩
    have hRoot :=
      ((Json.checkKeys_eq_ok_iff _).mp hRootKeys).1
    rw [Tree.complete_ofText_iff hComplete hText.written]
      at hRoot
    rw [Tree.ofText_of_writtenTokens hComplete hRoot
      hText.written] at hJson'
    -- Both values are the one that is read directly.
    have hW :=
      Value.ofTree_resolved tree hKeys hJson' hConvert
    rw [hV] at hW
    cases hW
    exact ⟨hBound, rfl⟩
  · rintro ⟨hDepth, rfl⟩
    rw [Nat.le_min] at hDepth
    have hRoom : tree.depth ≤ Json.maxOpen := by
      rw [hDepths]
      exact hDepth.2
    rw [valueOfText_eq_ok_iff,
      Tree.ofText_of_writtenTokens hComplete hRoom
        hText.written]
    refine ⟨rfl, hKeys, json, hJson, ?_⟩
    apply hValue
    rw [Path.root, List.length_nil, Nat.zero_add]
    exact hDepth.1

------------------------------------------------------------
-- Input
------------------------------------------------------------

/- The same surroundings with a text on standard input. -/
def Environment.withInput
    (environment : Environment)
    (text : String) : Environment :=
  { environment with standardInput := .ok (Text.bytes text) }

/- The bytes of a text are decoded as the text. -/
theorem decode_bytes (text : String) :
    decode (.ok (Text.bytes text)) = .ok text := by
  simp only [decode, bind_eq_ok_iff]
  refine ⟨_, rfl, ?_⟩
  rw [Text.ofBytes?_bytes]
  rfl

/- A text on standard input is read as it is. -/
theorem readText_withInput
    (environment : Environment)
    (text : String) :
    readText (environment.withInput text) none =
      .ok text := by
  rw [readText, Environment.withInput, decode_bytes]
  rfl

/- The value of the input is the value of its text. -/
theorem readValue_eq_ok_iff
    {v : Value} :
    readValue environment limits input = .ok v ↔
      ∃ text, readText environment input = .ok text ∧
        valueOfText limits text = .ok v := by
  exact bind_eq_ok_iff

/- The value of a text on standard input. -/
theorem readValue_withInput
    (environment : Environment)
    (limits : Limits)
    (text : String) :
    readValue (environment.withInput text) limits none =
      valueOfText limits text := by
  rw [readValue, readText_withInput]
  rfl

/- What is read is well formed and does not nest too deep. -/
theorem within_of_readValue
    (hValue : readValue environment limits input = .ok v) :
    v.Within (min limits.maxDepth Json.maxOpen) := by
  rcases readValue_eq_ok_iff.mp hValue with
    ⟨text, _, hText⟩
  exact within_of_valueOfText hText

------------------------------------------------------------
-- Envelopes
------------------------------------------------------------

/- The envelope of the input is that of its value. -/
theorem readEnvelope_eq_ok_iff :
    readEnvelope environment limits input = .ok envelope ↔
      ∃ v, readValue environment limits input = .ok v ∧
        Envelope.wrap v = .ok envelope := by
  simp only [readEnvelope, bind_eq_ok_iff,
    mapError_eq_ok_iff]

/- The payload of the input is that of its envelope. -/
theorem readPayload_of_readEnvelope
    (hRead :
      readEnvelope environment limits input =
        .ok envelope) :
    readPayload environment limits input true =
      .ok envelope.signed := by
  rw [readPayload, if_pos rfl, hRead]
  rfl

/- The payload of an envelope that is read is well formed. -/
theorem wellFormed_signed_of_readEnvelope
    (hRead :
      readEnvelope environment limits input =
        .ok envelope) :
    envelope.signed.WellFormed := by
  rcases readEnvelope_eq_ok_iff.mp hRead with
    ⟨v, hValue, hWrap⟩
  exact
    Envelope.wellFormed_signed_of_wrap
      (within_of_readValue hValue).1 hWrap

/-
  A printed envelope is read as itself, and only if there is
  room for it.
-/
theorem readEnvelope_printed_iff
    {other : Envelope}
    (hWell : envelope.signed.WellFormed)
    (hPlain : envelope.toJson.tree.Plain) :
    readEnvelope (environment.withInput (printed envelope))
        limits none =
        .ok other ↔
      envelope.toValue.depth ≤
          min limits.maxDepth Json.maxOpen ∧
        envelope = other := by
  have hHolds := envelope.holds_toJson
  rw [readEnvelope_eq_ok_iff, readValue_withInput]
  simp only [printed,
    valueOfText_of_spelledTokens_iff
      (Json.spelledTokens_pretty hHolds) hHolds
      (Envelope.wellFormed_toValue_iff.mpr hWell) hPlain]
  constructor
  · rintro ⟨_, ⟨hDepth, rfl⟩, hWrap⟩
    rw [Envelope.wrap_toValue] at hWrap
    exact ⟨hDepth, Except.ok.inj hWrap⟩
  · rintro ⟨hDepth, rfl⟩
    exact
      ⟨envelope.toValue, ⟨hDepth, rfl⟩,
        Envelope.wrap_toValue envelope⟩

end CommandLine

end SignedMetadata
