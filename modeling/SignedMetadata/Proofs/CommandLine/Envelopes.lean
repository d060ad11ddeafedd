import SignedMetadata.Proofs.CommandLine.Reading
import SignedMetadata.Proofs.Envelope.Texts
import SignedMetadata.Proofs.Reading.Printed

/-
  Texts that show envelopes.

  A text shows an envelope if the payload stands in it before
  the signatures, each under its name and written as what it
  is, and if the whole is read as nothing but the envelope.
  What commands print for an envelope shows it.

  Main declarations:
    * `Shows`
    * `shows_printed`
-/

namespace SignedMetadata

namespace CommandLine

open Json (Spells)

variable {envelope : Envelope}

/-
  A text of lines that shows an envelope.  It can be read back
  if there is room for it, unless a mapping in the payload has
  `literalKey` as its least key.
-/
structure Shows
    (envelope : Envelope)
    (output : String) : Prop where
  framed :
    ∃ payload records : String,
      output =
          "\x7b\n  \"signed\": " ++ payload ++
            ",\n  \"signatures\": " ++ records ++
            "\n\x7d\n" ∧
        Spells payload envelope.signed ∧
        Spells records
          (.sequence
            (envelope.signatures.map Signature.toValue))
  spelled : Spells output envelope.toValue
  read_back :
    envelope.signed.NotFirst literalKey →
      envelope.toValue.depth ≤ 127 →
        Envelope.ofText output = .ok envelope

/- There is something in a text that shows an envelope. -/
theorem Shows.ne_empty
    {output : String}
    (hShows : Shows envelope output) :
    output ≠ "" := by
  rcases hShows.framed with ⟨payload, records, rfl, _⟩
  rw [Ne, String.append_eq_empty_iff]
  rintro ⟨_, hEnd⟩
  exact absurd hEnd (by decide)

/- The payload is printed before the signatures. -/
theorem printed_eq :
    printed envelope =
      "\x7b\n  \"signed\": " ++
        Json.prettyAt 1 envelope.signed.toJson ++
        ",\n  \"signatures\": " ++
        Json.prettyAt 1
          (.array
            (envelope.signatures.map fun signature =>
              signature.toValue.toJson)) ++
        "\n\x7d\n" := by
  have hSigned :
      Json.printedString "signed" = "\"signed\"" := by
    decide
  have hSignatures :
      Json.printedString "signatures" =
        "\"signatures\"" := by
    decide
  have hOuter : Json.newLine 0 = "\n" := by decide
  have hInner : Json.newLine 1 = "\n  " := by decide
  rw [printed, Envelope.toJson, Json.pretty, Json.prettyAt,
    Json.prettyMembers, Json.prettyMembers, hSigned,
    hSignatures, hOuter, hInner]
  apply String.toList_inj.mp
  simp

/- What is printed for an envelope shows it. -/
theorem shows_printed
    (hWell : envelope.signed.WellFormed) :
    Shows envelope (printed envelope) := by
  have hHolds := envelope.holds_toJson
  have hText :
      Json.SpelledTokens envelope.toJson.tree.tokens
        (printed envelope).toList :=
    Json.spelledTokens_pretty hHolds
  refine ⟨⟨_, _, printed_eq, ?_, ?_⟩, ?_, ?_⟩
  · have hSigned := Value.holds_toJson envelope.signed
    exact
      Json.spells_of_holds hSigned
        (Json.spelledTokens_prettyAt _ 1 hSigned)
  · have hRecords :=
      Signature.holds_toJson_array envelope.signatures
    exact
      Json.spells_of_holds hRecords
        (Json.spelledTokens_prettyAt _ 1 hRecords)
  · exact Json.spells_of_holds hHolds hText
  · intro hFirst hDepth
    have hWhole :=
      Envelope.wellFormed_toValue_iff.mpr hWell
    have hRead :=
      Value.readAs_of_spelledTokens hText hHolds hWhole
        (Envelope.plain_toJson hFirst) hDepth
    exact
      Envelope.ofText_eq_ok_iff.mpr
        ⟨_, hRead.directly, envelope.form_toValue⟩

end CommandLine

end SignedMetadata
