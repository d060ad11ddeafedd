import SignedMetadata.Proofs.Reading.Direct
import SignedMetadata.Proofs.Value.Data

/-
  Values are read back from the text of their data.

  A text is read as a value by two readers: one reads it
  directly, the other reads it as data and converts this
  without limits.  Both read every spelling of the tokens of
  a plain tree as the value that the tree holds, and both
  printers write such a spelling.

  Main declarations:
    * `ReadAs`
    * `readAs_of_spelledTokens`
    * `readAs_printed`
-/

namespace SignedMetadata

namespace Value

open Json (Tree SpelledTokens)

------------------------------------------------------------
-- Readers
------------------------------------------------------------

/-
  The text is read as the value, directly and through data
  that is converted without limits.
-/
structure ReadAs (text : String) (v : Value) : Prop where
  directly : ofText text = .ok v
  throughData :
    ∃ json,
      Json.ofText text = .ok json ∧
        ofJson .unbounded json = .ok v

/-
  A text that spells the tokens of a plain tree is read as
  the value that the tree holds, when there is room for it.
-/
theorem readAs_of_spelledTokens
    {tree : Tree}
    {text : String}
    {v : Value}
    (hText : SpelledTokens tree.tokens text.toList)
    (hHolds : tree.Holds v)
    (hWell : v.WellFormed)
    (hPlain : tree.Plain)
    (hDepth : v.depth ≤ Json.maxOpen) :
    ReadAs text v := by
  have hRoom : tree.depth ≤ Json.maxOpen := by
    rw [Tree.depth_of_holds tree hHolds]
    exact hDepth
  have hDocument :=
    Tree.ofText_of_writtenTokens
      (Tree.complete_of_holds tree hHolds) hRoom hText.written
  rcases accepted_of_holds tree hHolds hWell hPlain with
    ⟨_, json, hJson, hConverted⟩
  constructor
  · rw [ofText_eq_ok_iff, hDocument]
    exact ⟨rfl, ofTree_of_holds hHolds hWell hPlain⟩
  · refine ⟨json, ?_, ?_⟩
    · rw [Json.ofText_eq_ok_iff, hDocument]
      exact ⟨rfl, hJson⟩
    · apply hConverted
      have hUnbounded :
          Json.maxOpen ≤ Limits.unbounded.maxDepth := by
        decide
      rw [Path.root, List.length_nil, Nat.zero_add]
      exact hDepth.trans hUnbounded

------------------------------------------------------------
-- Printed Values
------------------------------------------------------------

/-
  A well-formed value that nests at most 127 deep, and in
  which no mapping has `literalKey` as its least key, is read
  back from its compact and from its indented text.
-/
theorem readAs_printed
    (v : Value)
    (hWell : v.WellFormed)
    (hFirst : v.NotFirst literalKey)
    (hDepth : v.depth ≤ 127) :
    ReadAs v.toJson.compact v ∧
      ReadAs v.toJson.pretty v := by
  have hHolds := holds_toJson v
  have hPlain := plain_toJson v hFirst
  constructor
  · exact
      readAs_of_spelledTokens
        (Json.spelledTokens_compact v.toJson hHolds) hHolds
        hWell hPlain hDepth
  · exact
      readAs_of_spelledTokens
        (Json.spelledTokens_prettyAt v.toJson 0 hHolds)
        hHolds hWell hPlain hDepth

/- A value with a control character and extreme numbers. -/
def hardToPrint : Value :=
  .mapping
    [("", .sequence []),
      ("\x01\"", .sequence
        [.integer minInteger, .integer maxInteger,
          .mapping [], .string "\x1f\\/é😀"]),
      (literalKey, .mapping [("!", .null)])]

/- It is read back though `literalKey` is one of its keys. -/
theorem readAs_printed_hard :
    (hardToPrint.WellFormed ∧
        hardToPrint.NotFirst literalKey ∧
        hardToPrint.depth ≤ 127) ∧
      ofText hardToPrint.toJson.compact = .ok hardToPrint ∧
        ofText hardToPrint.toJson.pretty =
          .ok hardToPrint := by
  have hWell : hardToPrint.WellFormed := by
    have hMin : InRange minInteger := by decide
    have hMax : InRange maxInteger := by decide
    exact
      ⟨by decide +kernel, trivial,
        ⟨hMin, hMax, ⟨List.Pairwise.nil, trivial⟩,
          trivial, trivial⟩,
        ⟨by decide +kernel, trivial, trivial⟩, trivial⟩
  have hFirst : hardToPrint.NotFirst literalKey := by
    have hOuter :
        literalKey ∉
          (Members.keys
            [("", .sequence []),
              ("\x01\"", .sequence
                [.integer minInteger, .integer maxInteger,
                  .mapping [], .string "\x1f\\/é😀"]),
              (literalKey,
                Value.mapping [("!", .null)])]).head? := by
      decide
    have hInner :
        literalKey ∉
          (Members.keys [("!", Value.null)]).head? := by
      decide
    have hEmpty :
        literalKey ∉
          (Members.keys ([] : Members Value)).head? := by
      decide
    exact
      ⟨hOuter, trivial,
        ⟨trivial, trivial, ⟨hEmpty, trivial⟩, trivial,
          trivial⟩,
        ⟨hInner, trivial, trivial⟩, trivial⟩
  have hDepth : hardToPrint.depth ≤ 127 := by decide
  rcases readAs_printed hardToPrint hWell hFirst hDepth with
    ⟨hCompact, hPretty⟩
  exact
    ⟨⟨hWell, hFirst, hDepth⟩, hCompact.directly,
      hPretty.directly⟩

end Value

end SignedMetadata
