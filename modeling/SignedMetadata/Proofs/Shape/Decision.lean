import SignedMetadata.Proofs.Catalog.Texts
import SignedMetadata.Proofs.Shape.Locations

/-
  Checking decides what shapes mean.

  A reading of patterns is decided if checks succeed exactly
  for the values that a shape describes under it, and fail
  with errors that are right about their places.  Whatever
  engine compiles the patterns, they are decided as they
  occur in a text, and as descriptions of the whole text if
  their sources are expressions on their own.

  Main declarations:
    * `Shape.DecidedBy`
    * `Shape.decidedBy_found`
    * `Shape.decidedBy_full_of_selfContained`
    * `Shape.escaping_passes_prefix`
-/

namespace SignedMetadata

namespace Shape

------------------------------------------------------------
-- Decided Readings
------------------------------------------------------------

/-
  Checks against the shape decide the reading: they succeed
  exactly for what the shape describes, and their errors are
  right about a place inside the value.
-/
def DecidedBy
    (shape : Shape)
    (reads : Pattern → String → Prop) : Prop :=
  ∀ v,
    (shape.check v = .ok () ↔ shape.Describes reads v) ∧
      ∀ e, shape.check v = .error e →
        Fault reads shape v e.path e

/- The reading by what is found is decided for all shapes. -/
theorem decidedBy_found (shape : Shape) :
    shape.DecidedBy Found := by
  intro v
  refine ⟨checkAt_eq_ok_iff shape Path.root v, ?_⟩
  intro e hCheck
  rcases fault_of_checkAt shape Path.root v hCheck with
    ⟨place, hPath, hFault⟩
  rw [hPath]
  exact hFault

variable {reads reads' : Pattern → String → Prop}
variable {shape : Shape}

/- Readings that agree on all patterns are decided alike. -/
theorem DecidedBy.congr
    (hDecided : shape.DecidedBy reads)
    (hReads :
      ∀ p, SubShape (.pattern p) shape →
        ∀ text, reads p text ↔ reads' p text) :
    shape.DecidedBy reads' := by
  intro v
  rcases hDecided v with ⟨hOk, hError⟩
  constructor
  · rw [hOk]
    constructor
    · intro hValue
      exact hValue.mono fun p hp text => (hReads p hp text).mp
    · intro hValue
      exact hValue.mono fun p hp text => (hReads p hp text).mpr
  · intro e hCheck
    apply (hError e hCheck).mono
    exact fun p hp text => (hReads p hp text).mpr

------------------------------------------------------------
-- Patterns of Whole Texts
------------------------------------------------------------

/-
  Checks decide the reading of patterns by where they occur,
  for every engine that follows what expressions mean.  They
  accept what is described if patterns describe whole texts,
  and decide this if the source of every pattern is an
  expression on its own.
-/
theorem decidedBy_full_of_selfContained
    {engine : Engine}
    {means : Engine.Meaning}
    (hEngine : engine.Follows means)
    (shape : Shape)
    (hCompiled :
      ∀ p, SubShape (.pattern p) shape →
        p.CompiledBy engine) :
    shape.DecidedBy (Pattern.Occurs means) ∧
      (∀ v, shape.Describes (Pattern.Full engine means) v →
        shape.check v = .ok ()) ∧
      ((∀ p, SubShape (.pattern p) shape →
          p.SelfContained engine) →
        shape.DecidedBy (Pattern.Full engine means)) := by
  have hFound := decidedBy_found shape
  refine ⟨?_, ?_, ?_⟩
  · apply hFound.congr
    intro p hp text
    exact Pattern.accepts_iff_occurs hEngine (hCompiled p hp)
  · intro v hValue
    apply (hFound v).1.mpr
    apply hValue.mono
    intro p hp text hFull
    exact
      Pattern.accepts_of_full hEngine (hCompiled p hp) hFull
  · intro hAlone
    apply hFound.congr
    intro p hp text
    exact
      Pattern.accepts_iff_full hEngine (hCompiled p hp)
        (hAlone p hp)

/- The only pattern in a dictionary of hashes. -/
theorem eq_hexPattern_of_subShape_hashDict
    {p : Pattern}
    (hPattern : SubShape (.pattern p) Catalog.hashDict) :
    p = Catalog.hexPattern := by
  cases hPattern with
  | key hKey => cases hKey
  | value hValue =>
      cases hValue
      rfl

/-
  So it is for the built-in engine and the dictionaries of
  hashes in metadata.
-/
theorem decidedBy_full_hashDict :
    Engine.builtIn.Follows Engine.builtInMeaning ∧
      (∀ p, SubShape (.pattern p) Catalog.hashDict →
        p.CompiledBy .builtIn ∧ p.SelfContained .builtIn) ∧
      SubShape (.pattern Catalog.hexPattern)
          Catalog.hashDict ∧
        Catalog.hashDict.DecidedBy
          (Pattern.Full .builtIn Engine.builtInMeaning) := by
  have hAll (p : Pattern)
      (hPattern : SubShape (.pattern p) Catalog.hashDict) :
      p.CompiledBy .builtIn ∧ p.SelfContained .builtIn := by
    rw [eq_hexPattern_of_subShape_hashDict hPattern]
    exact
      ⟨Catalog.compiledBy_hexPattern,
        Catalog.selfContained_hexPattern⟩
  have hDecided :=
    decidedBy_full_of_selfContained Engine.follows_builtIn
      Catalog.hashDict fun p hp => (hAll p hp).1
  refine ⟨Engine.follows_builtIn, hAll, .value .whole, ?_⟩
  exact hDecided.2.2 fun p hp => (hAll p hp).2

/- A pattern whose source closes the group around it. -/
def escaping : Pattern :=
  (Pattern.compile? "a)|(b").get (by decide +kernel)

/- It is an `a` at the start of a text or a `b` at its end. -/
theorem parse?_escaping :
    (Expression.parse? (Pattern.anchored "a)|(b")).map
        Expression.regex =
      some (.alt
        (.seq .atStart (.seq (.one [(0x61, 0x61)]) .empty))
        (.alt
          (.seq (.one [(0x62, 0x62)]) (.seq .atEnd .empty))
          (.one []))) := by
  decide +kernel

/- The pattern does not match the text as a whole. -/
theorem not_means_escaping :
    ¬ Engine.builtInMeaning (Pattern.anchored escaping.source)
        [] "ax".toList [] := by
  have hTwo (c : Char) : "ax".toList ≠ [c] := by
    intro hOne
    have hLength := congrArg List.length hOne
    cases hLength
  rcases Option.map_eq_some_iff.mp parse?_escaping with
    ⟨e, hRead, hRegex⟩
  have hSource : escaping.source = "a)|(b" := rfl
  rw [hSource, Engine.builtInMeaning_iff hRead, hRegex]
  rintro (hLeft | hRight | ⟨c, hOne, _⟩)
  · rcases Regex.matches_atStart_seq_iff.mp hLeft with
      ⟨_, a, b, hText, ⟨c, rfl, _⟩, rfl⟩
    exact hTwo c hText
  · rcases Regex.matches_seq_atEnd_iff.mp hRight with
      ⟨_, c, hOne, _⟩
    exact hTwo c hOne
  · exact hTwo c hOne

/-
  The pattern is compiled, although its source is none on its
  own, and a text passes that it does not match as a whole.
-/
theorem escaping_passes_prefix :
    escaping.CompiledBy .builtIn ∧
      ¬ escaping.SelfContained .builtIn ∧
      (Shape.pattern escaping).check (.string "ax") =
        .ok () ∧
      ¬ Engine.builtInMeaning
          (Pattern.anchored escaping.source)
          [] "ax".toList [] ∧
      ¬ (Shape.pattern escaping).DecidedBy
          (Pattern.Full .builtIn Engine.builtInMeaning) := by
  have hCompiled : escaping.CompiledBy .builtIn :=
    Pattern.compiledBy_of_compileBy? (Option.some_get _).symm
  have hAlone : ¬ escaping.SelfContained .builtIn := by
    intro hKnown
    have hSome := Option.isSome_iff_exists.mpr hKnown
    have hNone :
        (Engine.builtIn.compile? escaping.source).isSome =
          false := by
      decide +kernel
    rw [hNone] at hSome
    cases hSome
  have hPasses :
      (Shape.pattern escaping).check (.string "ax") =
        .ok () := by
    have hFound : escaping.accepts "ax" = true := by
      decide +kernel
    exact
      (decidedBy_found (.pattern escaping) _).1.mpr
        (.pattern hFound)
  refine
    ⟨hCompiled, hAlone, hPasses, not_means_escaping, ?_⟩
  intro hDecided
  have hValue := (hDecided (.string "ax")).1.mp hPasses
  cases hValue with
  | pattern hFull => exact hAlone hFull.1

end Shape

end SignedMetadata
