import SignedMetadata.Catalog
import SignedMetadata.Proofs.Digest.Values
import SignedMetadata.Proofs.Pattern.Engine
import SignedMetadata.Proofs.Shape.Meaning
import SignedMetadata.Signature.Basic

/-
  Texts that the catalog describes by patterns.

  The pattern of hashes and signatures is written apart from
  the test for hex digits that records are read with.  Both
  accept the same texts: one or more digits of the class.
  Digests are such texts, so that a table of digests can be
  put into metadata where hashes are expected.

  Main declarations:
    * `Catalog.accepts_hexPattern_iff`
    * `Catalog.describes_hashDict_of_table`
-/

namespace SignedMetadata

------------------------------------------------------------
-- Hex Digits
------------------------------------------------------------

namespace Catalog

/- Where the hex digits lie among the code points. -/
def hexRanges : Text.CodePointRanges :=
  [(0x30, 0x39), (0x41, 0x46), (0x61, 0x66)]

/- The hex digits are the characters in the ranges. -/
theorem isHexDigit_iff_holds (c : Char) :
    Text.isHexDigit c = true ↔ hexRanges.holds c = true := by
  have hDigit :
      Text.isHexDigit c = true ↔
        ('0' ≤ c ∧ c ≤ '9') ∨ ('a' ≤ c ∧ c ≤ 'f') ∨
          ('A' ≤ c ∧ c ≤ 'F') := by
    unfold Text.isHexDigit Text.hexDigit?
    grind
  have hRanges :
      hexRanges.holds c = true ↔
        ('0' ≤ c ∧ c ≤ '9') ∨ ('A' ≤ c ∧ c ≤ 'F') ∨
          ('a' ≤ c ∧ c ≤ 'f') := by
    simp [hexRanges, Text.CodePointRanges.holds, Char.le_def,
      UInt32.le_iff_toNat_le]
  rw [hDigit, hRanges]
  exact or_congr_right or_comm

/- The source of the pattern is one class, many times. -/
theorem parse?_hexPattern :
    (Expression.parse? hexPattern.source).map
        Expression.regex =
      some (.times (.one hexRanges) 1 none) := by
  decide +kernel

/- The pattern was compiled from its source. -/
theorem compiledBy_hexPattern :
    hexPattern.CompiledBy .builtIn :=
  Pattern.compiledBy_of_compileBy? (Option.some_get _).symm

/- Its source is an expression on its own. -/
theorem selfContained_hexPattern :
    hexPattern.SelfContained .builtIn := by
  apply Option.isSome_iff_exists.mp
  decide +kernel

/- The pattern describes one or more hex digits. -/
theorem accepts_hexPattern_iff
    {text : String} :
    hexPattern.accepts text = true ↔
      Text.isHex text = true := by
  rw [Pattern.accepts_iff_matches compiledBy_hexPattern
      selfContained_hexPattern parse?_hexPattern,
    Regex.matches_oneOrMore_iff, Text.isHex]
  simp [isHexDigit_iff_holds]

------------------------------------------------------------
-- Tables of Digests
------------------------------------------------------------

/- A table of digests, as part of metadata. -/
def ofTable (digests : Members String) : Value :=
  .mapping (digests.map fun (name, digest) =>
    (name, .string digest))

/- The entries of a table are hashes by their names. -/
theorem describes_hashDict_entries
    (text : String)
    (algorithms : List HashAlgorithm) :
    hashDict.Describes Shape.Found
      (ofTable (Digest.entries text algorithms)) := by
  refine .dictOf ?_ ?_
  · intro m _
    exact .anyString m.1
  · intro m hMember
    rcases List.mem_map.mp hMember with ⟨_, hEntry, rfl⟩
    rcases List.mem_map.mp hEntry with ⟨algorithm, _, rfl⟩
    exact
      .pattern
        (accepts_hexPattern_iff.mpr
          (Digest.isHex_ofText algorithm text))

/- A table of digests has the shape of hashes by names. -/
theorem describes_hashDict_of_table
    {limits : Limits}
    {v : Value}
    {algorithms : List HashAlgorithm}
    {digests : Members String}
    (hTable :
      Digest.table limits v algorithms = .ok digests) :
    hashDict.Describes Shape.Found (ofTable digests) := by
  cases hEncode : Canonical.encode limits v with
  | ok text =>
      rw [Digest.table_of_encode_ok hEncode] at hTable
      cases hTable
      exact describes_hashDict_entries text algorithms
  | error cause =>
      by_cases hNone : algorithms = []
      · subst hNone
        cases hTable
        exact describes_hashDict_entries "" []
      · rw [Digest.table_of_encode_error hEncode hNone]
          at hTable
        cases hTable

end Catalog

end SignedMetadata
