import SignedMetadata.Proofs.CommandLine.Canonicalize

/-
  No command acts on a text with a repeated key.

  Every command reads a value from its input before it prints
  anything, and no value is read from a text in which some
  object repeats a key.

  Main declarations:
    * `Environment.Holds`
    * `exists_failed_of_not_read`
    * `run_of_repeatsKey`
-/

namespace SignedMetadata

namespace CommandLine

open Fallible

variable {environment : Environment}
variable {limits : Limits}
variable {input : Option String}
variable {text : String}

------------------------------------------------------------
-- Input
------------------------------------------------------------

/- The input is the text: a file if one is named. -/
def Environment.Holds
    (environment : Environment)
    (input : Option String)
    (text : String) : Prop :=
  match input with
  | some path =>
      environment.fileBytes path = .ok (Text.bytes text)
  | none => environment.standardInput = .ok (Text.bytes text)

/- The text of the input is read. -/
theorem readText_of_holds
    (hInput : environment.Holds input text) :
    readText environment input = .ok text := by
  cases input with
  | none =>
      rw [Environment.Holds] at hInput
      rw [readText, hInput, mapError_eq_ok_iff]
      exact decode_bytes text
  | some path =>
      rw [Environment.Holds] at hInput
      rw [readText, hInput, mapError_eq_ok_iff]
      exact decode_bytes text

/- No value is read from a text with a repeated key. -/
theorem readValue_ne_ok_of_repeatsKey
    (hInput : environment.Holds input text)
    (hRepeats : Json.RepeatsKey text)
    (v : Value) :
    readValue environment limits input ≠ .ok v := by
  intro hValue
  rcases readValue_eq_ok_iff.mp hValue with
    ⟨text', hText, hRead⟩
  rw [readText_of_holds hInput] at hText
  cases hText
  rw [valueOfText, check_eq_ok_iff, mapError_eq_ok_iff]
    at hRead
  exact Json.checkText_ne_ok_of_repeatsKey hRepeats hRead.1

------------------------------------------------------------
-- Commands without Input
------------------------------------------------------------

/- No envelope is read when no value is. -/
theorem readEnvelope_of_error
    {cause : InputError}
    (hValue :
      readValue environment limits input = .error cause) :
    readEnvelope environment limits input =
      .error cause := by
  rw [readEnvelope, hValue]
  rfl

/- No payload is read when no value is. -/
theorem readPayload_of_error
    {cause : InputError}
    (hValue :
      readValue environment limits input = .error cause)
    (signedOnly : Bool) :
    readPayload environment limits input signedOnly =
      .error cause := by
  cases signedOnly with
  | false => exact hValue
  | true =>
      rw [readPayload, if_pos rfl,
        readEnvelope_of_error hValue]
      rfl

/- A command fails at once when it cannot read a value. -/
theorem exists_failed_of_not_read
    {invocation : Invocation}
    (hRead :
      ∀ v,
        readValue environment invocation.limits
            invocation.input ≠
          .ok v) :
    ∃ failure,
      invocation.run environment = .failed failure := by
  rcases invocation with ⟨limits, input, command⟩
  cases hValue : readValue environment limits input with
  | ok v => exact absurd hValue (hRead v)
  | error cause =>
      have hEnvelope := readEnvelope_of_error hValue
      have hPayload := readPayload_of_error hValue
      cases command with
      | canonicalize signedOnly =>
          refine ⟨.input cause, ?_⟩
          dsimp only [Invocation.run]
          unfold canonicalize
          rw [hPayload]
          rfl
      | digest algorithm signedOnly =>
          refine ⟨.input cause, ?_⟩
          dsimp only [Invocation.run]
          unfold digest
          rw [hPayload]
          rfl
      | wrap =>
          refine ⟨.input cause, ?_⟩
          dsimp only [Invocation.run]
          unfold wrap
          rw [hEnvelope]
          rfl
      | signAppend keyId method sig =>
          -- The signature is read before the input.
          dsimp only [Invocation.run]
          unfold signAppend
          cases Signature.parse keyId method sig with
          | error refused => exact ⟨.signature refused, rfl⟩
          | ok signature =>
              refine ⟨.input cause, ?_⟩
              rw [hEnvelope]
              rfl
      | check role signable strict json =>
          refine ⟨.input cause, ?_⟩
          dsimp only [Invocation.run]
          unfold check
          cases signable with
          | false =>
              rw [hValue]
              rfl
          | true =>
              rw [hEnvelope]
              rfl

------------------------------------------------------------
-- Repeated Keys
------------------------------------------------------------

/-
  Whatever is asked for, other than help: if the input of the
  command is a text in which some object repeats a key, the
  program prints nothing and does not end with code 0.
-/
theorem run_of_repeatsKey
    {arguments : List String}
    (hHelp : Request.parse? arguments ≠ some .help)
    (hInput :
      ∀ invocation,
        Request.parse? arguments = some (.run invocation) →
          ∃ text,
            environment.Holds invocation.input text ∧
              Json.RepeatsKey text) :
    (run environment arguments).code ≠ 0 ∧
      (run environment arguments).output = "" := by
  unfold run
  cases hParse : Request.parse? arguments with
  | none => exact ⟨Nat.succ_ne_zero 1, rfl⟩
  | some request =>
      cases request with
      | help => exact absurd hParse hHelp
      | run invocation =>
          rcases hInput invocation hParse with
            ⟨text, hText, hRepeats⟩
          have hRead :
              ∀ v,
                readValue environment invocation.limits
                    invocation.input ≠
                  .ok v :=
            readValue_ne_ok_of_repeatsKey hText hRepeats
          rcases exists_failed_of_not_read hRead with
            ⟨failure, hFailed⟩
          dsimp only
          rw [hFailed]
          exact ⟨Nat.succ_ne_zero 0, rfl⟩

/- A key under two spellings, next to a number. -/
def respelledText : String :=
  "[1.5e+3,\x7b\"k\":1,\"\\u006b\":[]\x7d]"

/- Every file holds the text. -/
def respelledFile : Environment :=
  { Environment.piped "" with
    fileBytes := fun _ => .ok (Text.bytes respelledText) }

/- The same key is repeated in another spelling. -/
theorem repeatsKey_respelledText :
    Json.RepeatsKey respelledText := by
  apply Or.inr
  have hRoot :
      (Json.Document.ofText respelledText).root =
        .array
          [.number "1.5e+3",
            .object
              [("k", .number "1"), ("k", .array [] true)] true]
          true := by
    have hTokens :
        Json.Token.ofText respelledText =
          [.leftBracket, .number "1.5e+3", .comma, .leftBrace,
            .string "k", .colon, .number "1", .comma,
            .string "k", .colon, .leftBracket, .rightBracket,
            .rightBrace, .rightBracket] := by
      decide +kernel
    rw [Json.Document.ofText, hTokens]
    rfl
  rw [hRoot]
  simp [Json.Tree.Distinct, Json.Tree.DistinctItems,
    Json.Tree.DistinctMembers, Members.keys]

/- Metadata with such a text is not reported on. -/
theorem run_of_repeatsKey_respelled :
    (run respelledFile ["check", "--strict", "a.json"]).code ≠
        0 ∧
      (run respelledFile
        ["check", "--strict", "a.json"]).output = "" := by
  have hParse :
      Request.parse? ["check", "--strict", "a.json"] =
        some
          (.run
            ⟨.standard, some "a.json",
              .check none false true false⟩) := by
    decide +kernel
  apply run_of_repeatsKey
  · rw [hParse]
    simp
  · intro invocation hInvocation
    rw [hParse] at hInvocation
    cases hInvocation
    exact ⟨respelledText, rfl, repeatsKey_respelledText⟩

end CommandLine

end SignedMetadata
