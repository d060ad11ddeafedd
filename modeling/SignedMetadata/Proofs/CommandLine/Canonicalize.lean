import SignedMetadata.Proofs.Canonical.Delimiting
import SignedMetadata.Proofs.Canonical.Fragments
import SignedMetadata.Proofs.Canonical.Measure
import SignedMetadata.Proofs.CommandLine.Reading

/-
  The command that prints canonical text.

  What the sink has received at the end is the encoding of
  the value that was read, and nothing when the limits reject
  it.  A text that the command accepts is read directly as
  the same value exactly when no object in it passes a
  literal under `literalKey`.

  Main declarations:
    * `canonicalize_eq`
    * `run_canonicalize`
    * `run_canonicalize_of_read`
    * `canonicalize_agrees_iff_plain`
-/

namespace SignedMetadata

namespace CommandLine

open Value (ofText_eq_ok_iff)

variable {environment : Environment}
variable {limits : Limits}
variable {input : Option String}

/- Surroundings with a text on standard input alone. -/
def Environment.piped (text : String) : Environment where
  standardInput := .ok (Text.bytes text)
  fileBytes := fun _ => .error "No such file or directory"
  now := ⟨0, 0⟩

------------------------------------------------------------
-- Printing
------------------------------------------------------------

/- The command prints the encoding of what it has read. -/
theorem canonicalize_eq (signedOnly : Bool) :
    canonicalize environment limits input signedOnly =
      .ofExcept .input
        (readPayload environment limits input signedOnly)
        fun v =>
          .ofExcept .canonicalization
            (Canonical.encode limits v) .success := by
  unfold canonicalize
  congr
  funext v
  rw [Canonical.encodeTo_collector]
  cases Canonical.encode limits v <;> rfl

/- What a command line for the command does. -/
theorem run_canonicalize_payload
    {arguments : List String}
    {signedOnly : Bool}
    (hParse :
      Request.parse? arguments =
        some
          (.run ⟨limits, input, .canonicalize signedOnly⟩)) :
    run environment arguments =
      (Result.ofExcept .input
        (readPayload environment limits input signedOnly)
        fun v =>
          .ofExcept .canonicalization
            (Canonical.encode limits v) .success).outcome := by
  rw [run, hParse]
  exact congrArg Result.outcome (canonicalize_eq signedOnly)

/- The outcome for a value that does not nest too deep. -/
def canonicalOutcome
    (limits : Limits)
    (v : Value) : Outcome :=
  if (Text.bytes (Canonical.ofValue v)).length ≤
      limits.maxBytes then
    ⟨0, Canonical.ofValue v, ""⟩
  else
    ⟨1, "",
      "Error: Canonicalization failed: " ++
        (EncodeError.tooLarge limits.maxBytes).message ++
          "\n"⟩

/- The outcome depends on the payload only. -/
theorem run_canonicalize_of_read
    {arguments : List String}
    {signedOnly : Bool}
    {v : Value}
    (hParse :
      Request.parse? arguments =
        some
          (.run ⟨limits, input, .canonicalize signedOnly⟩))
    (hRead :
      readPayload environment limits input signedOnly =
        .ok v)
    (hDepth : v.depth ≤ limits.maxDepth) :
    run environment arguments =
      canonicalOutcome limits v := by
  have hEncode := Canonical.encode_of_depth_le hDepth
  rw [run_canonicalize_payload hParse, hRead,
    Result.ofExcept, hEncode, canonicalOutcome]
  by_cases hFits : Canonical.size v ≤ limits.maxBytes
  · rw [if_pos hFits]
    exact (if_pos hFits).symm
  · rw [if_neg hFits]
    exact (if_neg hFits).symm

/- It encodes the value of the whole input by default. -/
theorem run_canonicalize
    {arguments : List String}
    (hParse :
      Request.parse? arguments =
        some (.run ⟨limits, input, .canonicalize false⟩)) :
    run environment arguments =
      (Result.ofExcept .input
        (readValue environment limits input)
        fun v =>
          .ofExcept .canonicalization
            (Canonical.encode limits v) .success).outcome := by
  exact run_canonicalize_payload hParse

/- Only a computation with a result ends with code 0. -/
theorem outcome_ofExcept_code_iff
    {ε α : Type}
    {fail : ε → Failure}
    {computed : Except ε α}
    {next : α → Result} :
    (Result.ofExcept fail computed next).outcome.code = 0 ↔
      ∃ a, computed = .ok a ∧
        (next a).outcome.code = 0 := by
  cases computed with
  | ok a => simp [Result.ofExcept]
  | error cause =>
      simp [Result.ofExcept, Result.failed, Result.outcome]

/- A run with code 0 has read a value and encoded it. -/
theorem exists_of_run_code
    {arguments : List String}
    (hParse :
      Request.parse? arguments =
        some (.run ⟨limits, input, .canonicalize false⟩))
    (hCode : (run environment arguments).code = 0) :
    ∃ v,
      readValue environment limits input = .ok v ∧
        Canonical.encode limits v =
          .ok (run environment arguments).output := by
  rw [run_canonicalize hParse] at hCode ⊢
  rcases outcome_ofExcept_code_iff.mp hCode with
    ⟨v, hValue, hNext⟩
  rcases outcome_ofExcept_code_iff.mp hNext with
    ⟨text, hText, _⟩
  refine ⟨v, hValue, ?_⟩
  rw [hValue, Result.ofExcept, hText]
  rfl

------------------------------------------------------------
-- Reading in Stages and Directly
------------------------------------------------------------

/-
  What the command prints is the encoding of one value.  It
  is the value of the text in which numbers stand for objects
  that pass a literal, and it is what the text itself is read
  as directly exactly when there is no such object.
-/
theorem canonicalize_agrees_iff_plain
    {arguments : List String}
    (hParse :
      Request.parse? arguments =
        some (.run ⟨limits, input, .canonicalize false⟩))
    (hCode : (run environment arguments).code = 0) :
    ∃ text v,
      readText environment input = .ok text ∧
        Value.ofTree
            (Json.Document.ofText text).root.resolved =
          .ok v ∧
        Canonical.encode limits v =
          .ok (run environment arguments).output ∧
        (∀ limits' w,
          Canonical.encode limits' w =
              .ok (run environment arguments).output →
            w = v) ∧
        ((∃ w,
            Value.ofText text = .ok w ∧
              Canonical.encode limits w =
                .ok (run environment arguments).output) ↔
          (Json.Document.ofText text).root.Plain) := by
  rcases exists_of_run_code hParse hCode with
    ⟨v, hRead, hEncode⟩
  rcases readValue_eq_ok_iff.mp hRead with
    ⟨text, hText, hValue⟩
  rcases valueOfText_eq_ok_iff.mp hValue with
    ⟨hEnd, hKeys, json, hJson, hConvert⟩
  have hResolved :=
    Value.ofTree_resolved _ hKeys hJson hConvert
  refine ⟨text, v, hText, hResolved, hEncode, ?_, ?_, ?_⟩
  · intro limits' w hW
    apply Canonical.ofValue_inj
    rw [← Canonical.eq_ofValue_of_encode hW,
      ← Canonical.eq_ofValue_of_encode hEncode]
  · rintro ⟨w, hW, _⟩
    exact
      Value.plain_of_ofTree _ (ofText_eq_ok_iff.mp hW).2
  · intro hPlain
    rw [Json.Tree.resolved_of_plain _ hPlain] at hResolved
    exact
      ⟨v, ofText_eq_ok_iff.mpr ⟨hEnd, hResolved⟩, hEncode⟩

/- An array of an object whose last key is close to it. -/
def nearLiteral : String :=
  "[\x7b\"b\":-5,\"$serde_json::private\":\"5\"\x7d]"

/- A key close to `literalKey` passes no literal. -/
theorem canonicalize_agrees_iff_plain_near_literal :
    (run (.piped nearLiteral)
        ["canonicalize", "--max-depth", "2"]).code = 0 ∧
      (Json.Document.ofText nearLiteral).root.Plain := by
  have hParse :
      Request.parse? ["canonicalize", "--max-depth", "2"] =
        some
          (.run
            ⟨⟨2, 64 * 1024 * 1024⟩, none,
              .canonicalize false⟩) := by
    decide +kernel
  have hCode :
      (run (.piped nearLiteral)
        ["canonicalize", "--max-depth", "2"]).code = 0 := by
    decide +kernel
  have hInput :
      readText (.piped nearLiteral) none =
        .ok nearLiteral := by
    decide +kernel
  rcases canonicalize_agrees_iff_plain hParse hCode with
    ⟨text, v, hText, _, _, _, hIff⟩
  rw [hInput] at hText
  cases hText
  refine ⟨hCode, hIff.mp ⟨.sequence [.mapping
    [("$serde_json::private", .string "5"),
      ("b", .integer (-5))]], ?_, ?_⟩⟩
  · decide +kernel
  · decide +kernel

/- An object that passes the literal of a number. -/
def passedLiteral : String :=
  "\x7b\"$serde_json::private::Number\":\"5\"\x7d"

/-
  The command prints the same for a passed literal and for
  the number, though the one is not read directly.
-/
theorem passed_literal_prints_number :
    run (.piped passedLiteral) ["canonicalize"] =
        ⟨0, "5", ""⟩ ∧
      run (.piped "5") ["canonicalize"] = ⟨0, "5", ""⟩ ∧
      Value.ofText passedLiteral =
        .error
          (.rejected
            (.wrongType (.string "5")
              "a JSON number literal")) := by
  refine ⟨?_, ?_, ?_⟩ <;> decide +kernel

end CommandLine

end SignedMetadata
