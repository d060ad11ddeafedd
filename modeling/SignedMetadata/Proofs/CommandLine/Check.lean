import SignedMetadata.Proofs.CommandLine.RepeatedKeys
import SignedMetadata.Proofs.Role
import SignedMetadata.Proofs.Shape.Wording

/-
  Checking metadata by itself and as the payload of an
  envelope.

  Where an envelope is asked for, input that is none is put
  into a new one.  The payload is then the same value, so
  that both checks apply the same shapes and end with the
  same code.  A fault of the shape is located below the step
  to the payload.  But a text of expiry that has the shape of
  a date and is none is located in the payload by itself,
  whether there is an envelope or not.

  Main declarations:
    * `Relocated`
    * `Misdated`
    * `run_check_of_read`
    * `check_signable_relocates_iff`
-/

namespace SignedMetadata

namespace CommandLine

open Fallible

variable {environment : Environment}
variable {limits : Limits}
variable {input : Option String}
variable {expected : Option Role}
variable {role : Role}
variable {strict json : Bool}
variable {v : Value}

------------------------------------------------------------
-- Outcomes
------------------------------------------------------------

/- The outcome of a check that finds a fault at a place. -/
def complaint (lead place fault : String) : Outcome :=
  ⟨1, "", "Error: " ++ lead ++ place ++ ": " ++ fault ++ "\n"⟩

/- What a complaint may say before it names the place. -/
def leads : List String := ["Invalid metadata: ", ""]

/-
  The second of two outcomes is the first one for the payload
  of an envelope without signatures: the same report with the
  number of signatures, or the same complaint with the place
  below the step to the payload.
-/
inductive Relocated (json : Bool) : Outcome → Outcome → Prop
| report
    (code : Nat) (errors : String) (report : Report)
    (hAlone : report.signatures = none) :
    Relocated json
      ⟨code, report.render json, errors⟩
      ⟨code,
        { report with signatures := some 0 }.render json,
        errors⟩
| fault
    {lead : String} (hLead : lead ∈ leads)
    (path : Path) (fault : String) :
    Relocated json
      (complaint lead ("$" ++ path.steps) fault)
      (complaint lead ("$.signed" ++ path.steps) fault)

/- Every report has some text. -/
theorem render_ne_empty
    (report : Report) :
    report.render json ≠ "" := by
  intro hEmpty
  unfold Report.render at hEmpty
  cases json with
  | true =>
      rw [if_pos rfl, String.append_eq_empty_iff] at hEmpty
      exact absurd hEmpty.2 (by decide)
  | false =>
      rw [if_neg Bool.false_ne_true, Report.toTable] at hEmpty
      simp only [Report.row, String.append_eq_empty_iff]
        at hEmpty
      exact absurd hEmpty.1.1.1.2 (by decide)

/-
  A relocated outcome without a report is another one, since
  the place that it names is longer.
-/
theorem Relocated.ne_of_output_eq_empty
    {first second : Outcome}
    (hRelocated : Relocated json first second)
    (hOutput : first.output = "") :
    first ≠ second := by
  cases hRelocated with
  | report code errors report hAlone =>
      exact absurd hOutput (render_ne_empty report)
  | fault hLead path fault =>
      intro hSame
      have hLengths :=
        congrArg (fun o => o.errors.length) hSame
      simp only [complaint, String.length_append] at hLengths
      have hPlaces : "$".length < "$.signed".length := by
        decide
      omega

/- A relocated outcome has the same code. -/
theorem Relocated.code_eq
    {first second : Outcome}
    (hRelocated : Relocated json first second) :
    first.code = second.code := by
  cases hRelocated <;> rfl

------------------------------------------------------------
-- Checks of Values
------------------------------------------------------------

/- Where a check looks for the metadata. -/
def payloadPath (signable : Bool) : Path :=
  if signable then [.field "signed"] else Path.root

/- How many signatures a check counts without an envelope. -/
def signatureCount (signable : Bool) : Option Nat :=
  if signable then some 0 else none

section

variable {signable : Bool}

/- What a command line for a check does. -/
theorem run_check
    {arguments : List String}
    (hParse :
      Request.parse? arguments =
        some
          (.run
            ⟨limits, input,
              .check expected signable strict json⟩)) :
    run environment arguments =
      (check environment limits input expected signable
        strict json).outcome := by
  rw [run, hParse]
  rfl

/- A check fails alike if it cannot read a value. -/
theorem check_of_unread
    {cause : InputError}
    (hRead :
      readValue environment limits input = .error cause) :
    check environment limits input expected signable strict
        json =
      .failed (.input cause) := by
  unfold check
  cases signable with
  | false =>
      rw [if_neg Bool.false_ne_true, hRead]
      rfl
  | true =>
      rw [if_pos rfl, readEnvelope_of_error hRead]
      rfl

/- What a check does with a value that is no envelope. -/
theorem check_of_read
    (hRead : readValue environment limits input = .ok v)
    (hBare : Envelope.isWrapped v = false) :
    check environment limits input expected signable strict
        json =
      .ofExcept .metadata
        ((Role.checkExpected expected v).mapError
          fun e => e.under (payloadPath signable))
        fun role =>
          reportOn environment v role
            (signatureCount signable) strict json := by
  unfold check
  cases signable with
  | false =>
      have hStay :=
        ShapeError.mapError_under_root
          (Role.checkExpected expected v)
      rw [if_neg Bool.false_ne_true, hRead, payloadPath,
        if_neg Bool.false_ne_true, hStay]
      rfl
  | true =>
      have hWrap : Envelope.wrap v = .ok (.new v) := by
        rw [Envelope.wrap, hBare]
        rfl
      have hEnvelope :
          readEnvelope environment limits input =
            .ok (.new v) :=
        readEnvelope_eq_ok_iff.mpr ⟨v, hRead, hWrap⟩
      rw [if_pos rfl, hEnvelope]
      rfl

/- A failure whose message names a place is a complaint. -/
theorem outcome_failed
    {failure : Failure}
    {lead place fault : String}
    (hMessage :
      failure.message =
        lead ++ (place ++ ": " ++ fault)) :
    (Result.failed failure).outcome =
      complaint lead place fault := by
  unfold Result.outcome Result.failed complaint
  dsimp only
  rw [hMessage]
  congr 1
  ac_rfl

/- A fault of the shape is located below the payload. -/
theorem check_of_misshapen
    {cause : ShapeError}
    (hRead : readValue environment limits input = .ok v)
    (hBare : Envelope.isWrapped v = false)
    (hCheck : Role.checkExpected expected v = .error cause) :
    (check environment limits input expected signable strict
        json).outcome =
      complaint "Invalid metadata: "
        ((payloadPath signable).render ++ cause.path.steps)
        cause.detail := by
  rw [check_of_read hRead hBare, hCheck]
  apply outcome_failed
  exact
    congrArg ("Invalid metadata: " ++ ·)
      (cause.message_under (payloadPath signable))

/- An expiry that is no date is located in the payload. -/
theorem check_of_undated
    {cause : ShapeError}
    (hRead : readValue environment limits input = .ok v)
    (hBare : Envelope.isWrapped v = false)
    (hCheck : Role.checkExpected expected v = .ok role)
    (hExpires : Expiry.ofPayload v = .error cause) :
    (check environment limits input expected signable strict
        json).outcome =
      complaint "" cause.path.render cause.detail := by
  have hReport :
      reportOn environment v role (signatureCount signable)
          strict json =
        .failed (.expiry cause) := by
    unfold reportOn
    rw [hExpires]
    rfl
  rw [check_of_read hRead hBare, hCheck]
  dsimp only [Result.ofExcept, Except.mapError]
  rw [hReport]
  apply outcome_failed
  rw [String.empty_append]
  exact cause.message_eq

/-
  A date is reported with the role, and how the check ends
  does not depend on the number of signatures.
-/
theorem exists_check_of_dated
    {expires : DateTime}
    (hRead : readValue environment limits input = .ok v)
    (hBare : Envelope.isWrapped v = false)
    (hCheck : Role.checkExpected expected v = .ok role)
    (hExpires : Expiry.ofPayload v = .ok expires) :
    ∃ code errors,
      ∀ signable,
        (check environment limits input expected signable
            strict json).outcome =
          ⟨code,
            Report.render json
              { role := role
                expires := expires
                expired :=
                  Expiry.hasPassed expires environment.now
                signatures := signatureCount signable },
            errors⟩ := by
  have hReport :
      ∀ signable,
        (check environment limits input expected signable
            strict json).outcome =
          (reportOn environment v role
            (signatureCount signable) strict
            json).outcome := by
    intro signable
    rw [check_of_read hRead hBare, hCheck]
    rfl
  simp only [hReport, reportOn, hExpires, Result.ofExcept]
  by_cases hFails :
      (strict &&
        Expiry.hasPassed expires environment.now) = true
  · refine
      ⟨1,
        "Error: " ++ (Failure.expired role expires).message ++
          "\n",
        fun signable => ?_⟩
    rw [if_pos hFails]
    rfl
  · refine ⟨0, "", fun signable => ?_⟩
    rw [if_neg hFails]
    rfl

end

------------------------------------------------------------
-- Dates of Expiry
------------------------------------------------------------

/-
  Metadata that passes for a role, but whose text of expiry
  is no date.
-/
structure Misdated
    (expected : Option Role)
    (v : Value)
    (text : String)
    (fault : DateFault) : Prop where
  passes : ∃ role, Role.checkExpected expected v = .ok role
  expires : v.get? "expires" = some (.string text)
  noDate : DateTime.parse text = .error fault

/- What is wrong with the text. -/
def undatedText
    (text : String)
    (fault : DateFault) : String :=
  "expected an ISO 8601 datetime, found '" ++ text ++ "' (" ++
    fault.message ++ ")"

/- How the expiry of such metadata is reported. -/
theorem Misdated.ofPayload_eq
    {text : String}
    {fault : DateFault}
    (hMisdated : Misdated expected v text fault) :
    Expiry.ofPayload v =
      .error
        (.mismatch (Path.root.field "expires")
          "an ISO 8601 datetime"
          ("'" ++ text ++ "' (" ++ fault.message ++
            ")")) := by
  unfold Expiry.ofPayload
  simp only [hMisdated.expires, hMisdated.noDate]
  rfl

/- Metadata that passes has a date, unless it is misdated. -/
theorem exists_dated_or_misdated
    (hCheck : Role.checkExpected expected v = .ok role) :
    (∃ expires, Expiry.ofPayload v = .ok expires) ∨
      ∃ text fault, Misdated expected v text fault := by
  have hPasses := Role.check_of_checkExpected hCheck
  rcases Role.expires_of_describes
      (Role.check_iff_describes.mp hPasses) with
    ⟨text, hText⟩
  cases hDate : DateTime.parse text with
  | ok expires =>
      refine Or.inl ⟨expires, ?_⟩
      unfold Expiry.ofPayload
      simp only [hText, hDate]
  | error fault =>
      exact
        Or.inr ⟨text, fault, ⟨role, hCheck⟩, hText, hDate⟩

/- Both checks locate such a text in the payload itself. -/
theorem check_of_misdated
    {text : String}
    {fault : DateFault}
    (hRead : readValue environment limits input = .ok v)
    (hBare : Envelope.isWrapped v = false)
    (hMisdated : Misdated expected v text fault)
    (signable : Bool) :
    (check environment limits input expected signable strict
        json).outcome =
      complaint "" "$.expires" (undatedText text fault) := by
  rcases hMisdated.passes with ⟨role, hCheck⟩
  have hPlace :
      (Path.root.field "expires").render = "$.expires" := by
    decide
  have hExpected :
      "expected an ISO 8601 datetime, found '" =
        "expected " ++ "an ISO 8601 datetime" ++
          ", found " ++ "'" := by
    rfl
  unfold undatedText
  rw [check_of_undated hRead hBare hCheck
    hMisdated.ofPayload_eq, hExpected]
  unfold ShapeError.detail ShapeError.path
  dsimp only
  rw [hPlace]
  simp only [String.append_assoc]

/-
  Other metadata is checked in an envelope as by itself, and
  relocated if something is wrong with it.
-/
theorem check_relocated
    (hRead : readValue environment limits input = .ok v)
    (hBare : Envelope.isWrapped v = false)
    (hDated :
      ∀ text fault, ¬ Misdated expected v text fault) :
    Relocated json
      (check environment limits input expected false strict
        json).outcome
      (check environment limits input expected true strict
        json).outcome := by
  cases hCheck : Role.checkExpected expected v with
  | error cause =>
      rw [check_of_misshapen hRead hBare hCheck,
        check_of_misshapen hRead hBare hCheck]
      exact .fault List.mem_cons_self _ _
  | ok role =>
      rcases exists_dated_or_misdated hCheck with
        ⟨expires, hExpires⟩ | ⟨text, fault, hMisdated⟩
      · rcases exists_check_of_dated hRead hBare hCheck
            hExpires with
          ⟨code, errors, hOutcome⟩
        rw [hOutcome, hOutcome]
        exact .report code errors _ rfl
      · exact absurd hMisdated (hDated text fault)

/- Misdated or not, metadata is checked to the same end. -/
theorem check_code_eq
    (hRead : readValue environment limits input = .ok v)
    (hBare : Envelope.isWrapped v = false) :
    (check environment limits input expected false strict
        json).outcome.code =
      (check environment limits input expected true strict
        json).outcome.code := by
  by_cases hDated :
      ∀ text fault, ¬ Misdated expected v text fault
  · exact (check_relocated hRead hBare hDated).code_eq
  · simp only [not_forall, not_not] at hDated
    rcases hDated with ⟨text, fault, hMisdated⟩
    rw [check_of_misdated hRead hBare hMisdated,
      check_of_misdated hRead hBare hMisdated]

------------------------------------------------------------
-- Checks with and without Envelopes
------------------------------------------------------------

/-
  Input that is no envelope is checked as the payload of a
  new one.  Both checks end with the same code, and the
  outcome is relocated into the envelope for all metadata
  that is not misdated.  The expiry of metadata that is
  misdated is located in the payload by both checks, and not
  in the envelope by either.
-/
theorem check_signable_relocates_iff
    {plain signable : List String}
    (hPlain :
      Request.parse? plain =
        some
          (.run
            ⟨limits, input,
              .check expected false strict json⟩))
    (hSignable :
      Request.parse? signable =
        some
          (.run
            ⟨limits, input,
              .check expected true strict json⟩))
    (hBare :
      ∀ v, readValue environment limits input = .ok v →
        Envelope.isWrapped v = false) :
    (run environment plain).code =
        (run environment signable).code ∧
      ((∀ v, readValue environment limits input ≠ .ok v) →
        run environment plain = run environment signable ∧
          (run environment plain).output = "") ∧
      ∀ v, readValue environment limits input = .ok v →
        (Relocated json (run environment plain)
            (run environment signable) ↔
          ∀ text fault, ¬ Misdated expected v text fault) ∧
          ∀ text fault, Misdated expected v text fault →
            ∀ arguments ∈ [plain, signable],
              run environment arguments =
                complaint "" "$.expires"
                  (undatedText text fault) := by
  cases hRead : readValue environment limits input with
  | error cause =>
      rw [run_check hPlain, run_check hSignable,
        check_of_unread hRead, check_of_unread hRead]
      refine ⟨rfl, fun _ => ⟨rfl, rfl⟩, ?_⟩
      rintro v ⟨⟩
  | ok v =>
      have hAlone := hBare v hRead
      have hSame :
          ∀ text fault, Misdated expected v text fault →
            ∀ arguments ∈ [plain, signable],
              run environment arguments =
                complaint "" "$.expires"
                  (undatedText text fault) := by
        intro text fault hMisdated arguments hMember
        rcases List.mem_cons.mp hMember with rfl | hLast
        · rw [run_check hPlain]
          exact check_of_misdated hRead hAlone hMisdated false
        · rw [List.mem_singleton.mp hLast,
            run_check hSignable]
          exact check_of_misdated hRead hAlone hMisdated true
      refine ⟨?_, fun hNone => absurd rfl (hNone v), ?_⟩
      · rw [run_check hPlain, run_check hSignable]
        exact check_code_eq hRead hAlone
      rintro w ⟨⟩
      refine ⟨?_, hSame⟩
      constructor
      · intro hRelocated text fault hMisdated
        have hFirst :=
          hSame text fault hMisdated plain List.mem_cons_self
        have hSecond :=
          hSame text fault hMisdated signable
            (List.mem_cons_of_mem _ List.mem_cons_self)
        rw [hFirst, hSecond] at hRelocated
        exact hRelocated.ne_of_output_eq_empty rfl rfl
      · intro hDated
        rw [run_check hPlain, run_check hSignable]
        exact check_relocated hRead hAlone hDated

/- Metadata that lists a version, with a day of no month. -/
def timestampText (version : String) : String :=
  "\x7b\"_type\":\"Timestamp\",\"version\":1," ++
    "\"expires\":\"2016-02-30T00:00:00Z\"," ++
      "\"meta\":\x7b\"a b\":\x7b\"version\":" ++ version ++
        "\x7d\x7d\x7d"

/- The value that the text writes. -/
def timestampValue (version : Int) : Value :=
  .mapping
    [("_type", .string "Timestamp"),
      ("expires", .string "2016-02-30T00:00:00Z"),
      ("meta",
        .mapping
          [("a b",
            .mapping [("version", .integer version)])]),
      ("version", .integer 1)]

/- The arguments for a check without and with an envelope. -/
theorem parse?_check :
    Request.parse? ["check"] =
        some
          (.run
            ⟨.standard, none,
              .check none false false false⟩) ∧
      Request.parse? ["check", "--signable"] =
        some
          (.run
            ⟨.standard, none,
              .check none true false false⟩) := by
  decide +kernel

/- A version below zero is located in the envelope. -/
theorem check_signable_relocates_version :
    Relocated false
        (run (.piped (timestampText "-1")) ["check"])
        (run (.piped (timestampText "-1"))
          ["check", "--signable"]) ∧
      run (.piped (timestampText "-1"))
          ["check", "--signable"] =
        complaint "Invalid metadata: "
          "$.signed.meta[\"a b\"].version"
          ("expected an integer in 0..=2147483647, " ++
            "found -1") := by
  have hRead :
      readValue (.piped (timestampText "-1")) .standard none =
        .ok (timestampValue (-1)) := by
    decide +kernel
  have hBare :
      Envelope.isWrapped (timestampValue (-1)) = false := by
    decide
  have hRefused :
      Role.checkExpected none (timestampValue (-1)) =
        .error
          (.mismatch
            [.field "meta", .field "a b", .field "version"]
            "an integer in 0..=2147483647" "-1") := by
    decide +kernel
  have hOnly :
      ∀ v,
        readValue (.piped (timestampText "-1")) .standard
            none =
          .ok v →
        Envelope.isWrapped v = false := by
    intro v hValue
    rw [hRead, Except.ok.injEq] at hValue
    rw [← hValue]
    exact hBare
  rcases check_signable_relocates_iff parse?_check.1
      parse?_check.2 hOnly with
    ⟨_, _, hOutcome⟩
  rcases hOutcome _ hRead with ⟨hRelocated, _⟩
  refine ⟨hRelocated.mpr ?_, ?_⟩
  · intro text fault hMisdated
    rcases hMisdated.passes with ⟨role, hPasses⟩
    rw [hPasses] at hRefused
    cases hRefused
  · rw [run_check parse?_check.2,
      check_of_misshapen hRead hBare hRefused]
    decide

/-
  A day that no month has passes for a date of the shape, but
  is not located in the envelope.
-/
theorem check_signable_misplaces_expires :
    readValue (.piped (timestampText "1")) .standard none =
        .ok (timestampValue 1) ∧
      Envelope.isWrapped (timestampValue 1) = false ∧
      run (.piped (timestampText "1")) ["check"] =
        complaint "" "$.expires"
          (undatedText "2016-02-30T00:00:00Z" .outOfRange) ∧
      run (.piped (timestampText "1"))
          ["check", "--signable"] =
        complaint "" "$.expires"
          (undatedText "2016-02-30T00:00:00Z" .outOfRange) ∧
      run (.piped (timestampText "1"))
          ["check", "--signable"] ≠
        complaint "" "$.signed.expires"
          (undatedText "2016-02-30T00:00:00Z" .outOfRange) ∧
      ¬ Relocated false
          (run (.piped (timestampText "1")) ["check"])
          (run (.piped (timestampText "1"))
            ["check", "--signable"]) := by
  have hRead :
      readValue (.piped (timestampText "1")) .standard none =
        .ok (timestampValue 1) := by
    decide +kernel
  have hBare :
      Envelope.isWrapped (timestampValue 1) = false := by
    decide
  have hPasses :
      Role.checkExpected none (timestampValue 1) =
        .ok .timestamp := by
    decide +kernel
  have hMisdated :
      Misdated none (timestampValue 1) "2016-02-30T00:00:00Z"
        .outOfRange :=
    ⟨⟨_, hPasses⟩, rfl, by decide +kernel⟩
  have hPlain :
      run (.piped (timestampText "1")) ["check"] =
        complaint "" "$.expires"
          (undatedText "2016-02-30T00:00:00Z"
            .outOfRange) := by
    rw [run_check parse?_check.1]
    exact check_of_misdated hRead hBare hMisdated false
  have hSignable :
      run (.piped (timestampText "1"))
          ["check", "--signable"] =
        complaint "" "$.expires"
          (undatedText "2016-02-30T00:00:00Z"
            .outOfRange) := by
    rw [run_check parse?_check.2]
    exact check_of_misdated hRead hBare hMisdated true
  refine ⟨hRead, hBare, hPlain, hSignable, ?_, ?_⟩
  · rw [hSignable]
    decide
  · rw [hPlain, hSignable]
    intro hRelocated
    exact hRelocated.ne_of_output_eq_empty rfl rfl

end CommandLine

end SignedMetadata
