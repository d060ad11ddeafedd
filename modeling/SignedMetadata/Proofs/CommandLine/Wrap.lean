import SignedMetadata.Proofs.CommandLine.Canonicalize

/-
  The command that prints envelopes.

  A printed envelope is wrapped already, so that the command
  prints it again.  But wrapping puts a value one level
  deeper, and the limit on the depth counts for the envelope
  when it is read.  The command is idempotent exactly where
  it has not used up that room.

  Main declarations:
    * `run_wrap`
    * `depth_toValue_le_iff`
    * `wrap_again`
-/

namespace SignedMetadata

namespace CommandLine

variable {environment : Environment}
variable {limits : Limits}
variable {arguments : List String}

------------------------------------------------------------
-- Printing
------------------------------------------------------------

/- What a command line for the command does. -/
theorem run_wrap
    {input : Option String}
    (hParse :
      Request.parse? arguments =
        some (.run ⟨limits, input, .wrap⟩)) :
    run environment arguments =
      (Result.ofExcept .input
        (readEnvelope environment limits input)
        fun envelope =>
          .success (printed envelope)).outcome := by
  rw [run, hParse]
  rfl

/- An envelope that is read is printed. -/
theorem run_wrap_of_read
    {input : Option String}
    {envelope : Envelope}
    (hParse :
      Request.parse? arguments =
        some (.run ⟨limits, input, .wrap⟩))
    (hRead :
      readEnvelope environment limits input =
        .ok envelope) :
    run environment arguments =
      ⟨0, printed envelope, ""⟩ := by
  rw [run_wrap hParse, hRead]
  rfl

/- Nothing is printed when no envelope is read. -/
theorem run_wrap_of_not_read
    {input : Option String}
    (hParse :
      Request.parse? arguments =
        some (.run ⟨limits, input, .wrap⟩))
    (hRead :
      ∀ envelope,
        readEnvelope environment limits input ≠
          .ok envelope) :
    (run environment arguments).code = 1 ∧
      (run environment arguments).output = "" := by
  rw [run_wrap hParse]
  cases hResult : readEnvelope environment limits input with
  | ok envelope => exact absurd hResult (hRead envelope)
  | error cause => exact ⟨rfl, rfl⟩

------------------------------------------------------------
-- Printing Again
------------------------------------------------------------

/-
  There is room for the envelope of a value that was read if
  the value is an envelope already, or if there is room for
  one level more, and for the list of no signatures.
-/
theorem depth_toValue_le_iff
    {input : Option String}
    {v : Value}
    {envelope : Envelope}
    (hValue : readValue environment limits input = .ok v)
    (hWrap : Envelope.wrap v = .ok envelope) :
    envelope.toValue.depth ≤
        min limits.maxDepth Json.maxOpen ↔
      Envelope.isWrapped v = true ∨
        max (v.depth + 1) 2 ≤
          min limits.maxDepth Json.maxOpen := by
  have hWithin := within_of_readValue hValue
  by_cases hWrapped : Envelope.isWrapped v = true
  · rw [Envelope.wrap, if_pos hWrapped] at hWrap
    rw [Envelope.toValue_of_ofValue hWithin.1 hWrap]
    exact iff_of_true hWithin.2 (Or.inl hWrapped)
  · rw [Envelope.wrap, if_neg hWrapped] at hWrap
    cases hWrap
    rw [Envelope.depth_toValue, or_iff_right hWrapped]
    rfl

/-
  The command on its own output.  Unless a mapping in the
  payload has `literalKey` as its least key, the output is
  printed again if there was room for the envelope, and is
  not accepted if there was none.
-/
theorem wrap_again
    (hParse :
      Request.parse? arguments =
        some (.run ⟨limits, none, .wrap⟩))
    (hCode : (run environment arguments).code = 0) :
    ∃ v envelope,
      readValue environment limits none = .ok v ∧
        Envelope.wrap v = .ok envelope ∧
        run environment arguments =
          ⟨0, printed envelope, ""⟩ ∧
        (envelope.signed.NotFirst literalKey →
          if Envelope.isWrapped v = true ∨
              max (v.depth + 1) 2 ≤ min limits.maxDepth 127
          then
            run (environment.withInput (printed envelope))
                arguments =
              ⟨0, printed envelope, ""⟩
          else
            (run (environment.withInput (printed envelope))
                  arguments).code = 1 ∧
              (run
                  (environment.withInput (printed envelope))
                  arguments).output = "") := by
  have hOutcome := hCode
  rw [run_wrap hParse, outcome_ofExcept_code_iff] at hOutcome
  rcases hOutcome with ⟨envelope, hRead, _⟩
  rcases readEnvelope_eq_ok_iff.mp hRead with
    ⟨v, hValue, hWrap⟩
  have hRun := run_wrap_of_read hParse hRead
  refine ⟨v, envelope, hValue, hWrap, hRun, ?_⟩
  intro hFirst
  have hWell := wellFormed_signed_of_readEnvelope hRead
  have hPlain := Envelope.plain_toJson hFirst
  have hRoom := depth_toValue_le_iff hValue hWrap
  have hAgain :
      ∀ other,
        readEnvelope
              (environment.withInput (printed envelope))
              limits none =
            .ok other ↔
          envelope.toValue.depth ≤
              min limits.maxDepth Json.maxOpen ∧
            envelope = other := by
    intro other
    exact readEnvelope_printed_iff hWell hPlain
  split_ifs with hCase
  · apply run_wrap_of_read hParse
    exact (hAgain envelope).mpr ⟨hRoom.mpr hCase, rfl⟩
  · apply run_wrap_of_not_read hParse
    intro other hOther
    exact hCase (hRoom.mp ((hAgain other).mp hOther).1)

/- An object with its members out of order. -/
def shallowText : String :=
  "\x7b\"b\":[-5],\"a\":\"\\u0001\"\x7d"

/- The value of the object. -/
def shallowValue : Value :=
  .mapping
    [("a", .string "\x01"), ("b", .sequence [.integer (-5)])]

/- The envelope of the object, as it is printed. -/
def shallowEnvelope : String :=
  "\x7b\n  \"signed\": \x7b\n    \"a\": \"\\u0001\",\n" ++
    "    \"b\": [\n      -5\n    ]\n  \x7d,\n" ++
    "  \"signatures\": []\n\x7d\n"

/- The envelope is printed again where it may be so deep. -/
theorem wrap_again_shallow :
    run (.piped shallowText) ["wrap", "--max-depth", "2"] =
        ⟨0, shallowEnvelope, ""⟩ ∧
      (run (.piped shallowEnvelope)
          ["wrap", "--max-depth", "2"]).code = 1 ∧
      run (.piped shallowText) ["wrap", "--max-depth", "3"] =
        ⟨0, shallowEnvelope, ""⟩ ∧
      run (.piped shallowEnvelope)
          ["wrap", "--max-depth", "3"] =
        ⟨0, shallowEnvelope, ""⟩ := by
  have hPrinted :
      printed (.new shallowValue) = shallowEnvelope := by
    decide +kernel
  have hFirst : shallowValue.NotFirst literalKey :=
    ⟨by decide, trivial, ⟨trivial, trivial⟩, trivial⟩
  have hWrapped :
      Envelope.wrap shallowValue =
        .ok (.new shallowValue) := by
    decide +kernel
  have hNarrow :
      Request.parse? ["wrap", "--max-depth", "2"] =
        some (.run ⟨⟨2, 64 * 1024 * 1024⟩, none, .wrap⟩) := by
    decide +kernel
  have hWide :
      Request.parse? ["wrap", "--max-depth", "3"] =
        some (.run ⟨⟨3, 64 * 1024 * 1024⟩, none, .wrap⟩) := by
    decide +kernel
  have hNarrowCode :
      (run (.piped shallowText)
        ["wrap", "--max-depth", "2"]).code = 0 := by
    decide +kernel
  have hWideCode :
      (run (.piped shallowText)
        ["wrap", "--max-depth", "3"]).code = 0 := by
    decide +kernel
  have hNarrowRoom :
      ¬ (Envelope.isWrapped shallowValue = true ∨
        max (shallowValue.depth + 1) 2 ≤ min 2 127) := by
    decide +kernel
  have hWideRoom :
      Envelope.isWrapped shallowValue = true ∨
        max (shallowValue.depth + 1) 2 ≤ min 3 127 := by
    decide +kernel
  have hNarrowValue :
      readValue (.piped shallowText)
          ⟨2, 64 * 1024 * 1024⟩ none =
        .ok shallowValue := by
    decide +kernel
  have hWideValue :
      readValue (.piped shallowText)
          ⟨3, 64 * 1024 * 1024⟩ none =
        .ok shallowValue := by
    decide +kernel
  rcases wrap_again hNarrow hNarrowCode with
    ⟨v, envelope, hValue, hWrap, hNarrowRun, hRefused⟩
  rw [hNarrowValue] at hValue
  cases hValue
  rw [hWrapped] at hWrap
  cases hWrap
  rw [hPrinted] at hNarrowRun hRefused
  rcases wrap_again hWide hWideCode with
    ⟨v, envelope, hValue, hWrap, hWideRun, hAgain⟩
  rw [hWideValue] at hValue
  cases hValue
  rw [hWrapped] at hWrap
  cases hWrap
  rw [hPrinted] at hWideRun hAgain
  have hRefused' := hRefused hFirst
  rw [if_neg hNarrowRoom] at hRefused'
  have hAgain' := hAgain hFirst
  rw [if_pos hWideRoom] at hAgain'
  exact ⟨hNarrowRun, hRefused'.1, hWideRun, hAgain'⟩

/- An envelope for which there is no room left. -/
def deepEnvelope : String :=
  "\x7b\n  \"signed\": [],\n  \"signatures\": []\n\x7d\n"

/-
  The command accepts a sequence that is as deep as may be,
  but not the envelope that it prints.
-/
theorem wrap_refuses_own_output :
    run (.piped "[]") ["wrap", "--max-depth", "1"] =
        ⟨0, deepEnvelope, ""⟩ ∧
      run (.piped deepEnvelope)
          ["wrap", "--max-depth", "1"] =
        ⟨1, "",
          "Error: Unsupported input: nesting at " ++
            "$.signatures exceeds maximum depth 1\n"⟩ := by
  constructor <;> decide +kernel

end CommandLine

end SignedMetadata
