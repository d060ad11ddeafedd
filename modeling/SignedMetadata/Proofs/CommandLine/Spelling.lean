import SignedMetadata.Proofs.CommandLine.Canonicalize

/-
  Canonical text depends on the value only.

  The command ends in the same way for every text that writes
  a value, however its tokens are spelled and spaced and in
  whatever order its members stand.

  Main declarations:
    * `valueOfText_of_spells`
    * `canonicalize_any_spelling`
-/

namespace SignedMetadata

namespace CommandLine

open Json (Spells Layout SpelledText SpelledChar)

variable {limits : Limits}
variable {text : String}
variable {v : Value}

/- Every text that writes a value is read as the value. -/
theorem valueOfText_of_spells
    (hSpells : Spells text v)
    (hWell : v.WellFormed)
    (hAvoids : v.Avoids literalKey)
    (hDepth : v.depth ≤ min limits.maxDepth Json.maxOpen) :
    valueOfText limits text = .ok v := by
  rcases Json.exists_tree_of_spells hSpells with
    ⟨tree, hTree, hText⟩
  have hPlain : tree.Plain :=
    Value.plain_of_holds tree hTree hAvoids
  exact
    (valueOfText_of_spelledTokens_iff hText hTree hWell
      hPlain).mpr ⟨hDepth, rfl⟩

/-
  The outcome for a well-formed value that does not bind
  `literalKey` and is not too deep, from any text that writes
  it: its canonical text, or that this does not fit.
-/
theorem canonicalize_any_spelling
    {environment : Environment}
    {arguments : List String}
    {input : Option String}
    (hParse :
      Request.parse? arguments =
        some (.run ⟨limits, input, .canonicalize false⟩))
    (hText : readText environment input = .ok text)
    (hSpells : Spells text v)
    (hWell : v.WellFormed)
    (hAvoids : v.Avoids literalKey)
    (hDepth : v.depth ≤ min limits.maxDepth 127) :
    run environment arguments =
      if (Text.bytes (Canonical.ofValue v)).length ≤
          limits.maxBytes then
        ⟨0, Canonical.ofValue v, ""⟩
      else
        ⟨1, "",
          "Error: Canonicalization failed: " ++
            (EncodeError.tooLarge limits.maxBytes).message ++
              "\n"⟩ := by
  have hValue : readValue environment limits input = .ok v :=
    readValue_eq_ok_iff.mpr
      ⟨text, hText,
        valueOfText_of_spells hSpells hWell hAvoids hDepth⟩
  exact run_canonicalize_of_read hParse hValue (by omega)

/- A text with escapes, spaces and members out of order. -/
def escapedText : String :=
  "\x7b\"\\u0061\":-0 ,\n\"!\":\"\\uD83d\\uDE00/\\/\"\x7d "

/- The value of the text. -/
def escapedValue : Value :=
  .mapping [("!", .string "😀//"), ("a", .integer 0)]

/- The text writes the value. -/
theorem spells_escapedText :
    Spells escapedText escapedValue := by
  have hZero : Json.Numeral 0 ['-', '0'] := by
    have hDecimal : Json.Decimal 0 ['0'] :=
      ⟨by simp, by simp, by simp, by decide⟩
    exact Json.Numeral.negative hDecimal
  have hLayout :
      Layout escapedValue
        [.leftBrace, .string "a", .colon,
          .number (String.ofList ['-', '0']),
          .comma, .string "!", .colon, .string "😀//",
          .rightBrace] :=
    .members (List.Perm.swap _ _ _)
      (.more (.integer hZero) (.last (.string _)))
  have hKey :
      SpelledText "a".toList
        ['\\', 'u', '0', '0', '6', '1'] := by
    have hUnit :
        Json.CodeUnit 'a'.toNat ['0', '0', '6', '1'] :=
      .digits (.lower (by decide : 0 < 16))
        (.lower (by decide : 0 < 16))
        (.lower (by decide : 6 < 16))
        (.lower (by decide : 1 < 16))
    exact .cons (.unit hUnit) .nil
  have hFace :
      SpelledChar '😀'
        ['\\', 'u', 'D', '8', '3', 'd',
          '\\', 'u', 'D', 'E', '0', '0'] := by
    have hHigh : Json.CodeUnit 0xD83D ['D', '8', '3', 'd'] :=
      .digits (.upper (by decide : 13 < 16))
        (.lower (by decide : 8 < 16))
        (.lower (by decide : 3 < 16))
        (.lower (by decide : 13 < 16))
    have hLow : Json.CodeUnit 0xDE00 ['D', 'E', '0', '0'] :=
      .digits (.upper (by decide : 13 < 16))
        (.upper (by decide : 14 < 16))
        (.lower (by decide : 0 < 16))
        (.lower (by decide : 0 < 16))
    have hWide : 0x10000 ≤ '😀'.toNat := by simp
    exact .surrogates hWide hHigh hLow
  have hMark : SpelledText "!".toList ['!'] :=
    .cons (.raw (by decide) (by decide) (by decide)) .nil
  have hString :
      SpelledText "😀//".toList
        ['\\', 'u', 'D', '8', '3', 'd',
          '\\', 'u', 'D', 'E', '0', '0', '/', '\\', '/'] :=
    .cons hFace
      (.cons (.raw (by decide) (by decide) (by decide))
        (.cons (.letter (by decide)) .nil))
  have hNone : Json.White [] := by simp [Json.White]
  have hSpace : Json.White [' '] := by simp [Json.White]
  have hLine : Json.White ['\n'] := by simp [Json.White]
  refine ⟨_, hLayout, ?_⟩
  exact
    .cons hNone .leftBrace <|
    .cons hNone (.string hKey) <|
    .cons hNone .colon <|
    .cons hNone (.number hZero) <|
    .cons hSpace .comma <|
    .cons hLine (.string hMark) <|
    .cons hNone .colon <|
    .cons hNone (.string hString) <|
    .cons hNone .rightBrace <|
    .nil hSpace

/- The text is printed in canonical form, if that fits. -/
theorem canonicalize_any_spelling_escaped :
    run (.piped escapedText)
        ["canonicalize", "--max-depth", "1"] =
        ⟨0, "\x7b\"!\":\"😀//\",\"a\":0\x7d", ""⟩ ∧
      run (.piped escapedText)
          ["canonicalize", "--max-bytes", "18"] =
        ⟨1, "",
          "Error: Canonicalization failed: canonical " ++
            "output exceeds maximum size of 18 bytes\n"⟩ := by
  have hText :
      readText (.piped escapedText) none =
        .ok escapedText := by
    decide +kernel
  have hZero : Value.InRange 0 := by decide
  have hWell : escapedValue.WellFormed :=
    ⟨by decide +kernel, trivial, hZero, trivial⟩
  have hAvoids : escapedValue.Avoids literalKey :=
    ⟨by decide, trivial, by decide, trivial, trivial⟩
  have hDepth : escapedValue.depth ≤ 1 := by decide
  constructor
  · have hParse :
        Request.parse? ["canonicalize", "--max-depth", "1"] =
          some
            (.run
              ⟨⟨1, 64 * 1024 * 1024⟩, none,
                .canonicalize false⟩) := by
      decide +kernel
    rw [canonicalize_any_spelling hParse hText
      spells_escapedText hWell hAvoids
      (by simpa using hDepth)]
    decide +kernel
  · have hParse :
        Request.parse?
            ["canonicalize", "--max-bytes", "18"] =
          some
            (.run ⟨⟨64, 18⟩, none, .canonicalize false⟩) := by
      decide +kernel
    rw [canonicalize_any_spelling hParse hText
      spells_escapedText hWell hAvoids (by simp; omega)]
    decide +kernel

end CommandLine

end SignedMetadata
