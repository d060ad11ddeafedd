import SignedMetadata.Proofs.CommandLine.Digest
import SignedMetadata.Proofs.CommandLine.Envelopes
import SignedMetadata.Proofs.CommandLine.Reports

/-
  Commands are all or nothing.

  A command computes its result step by step, and every step
  may fail for a reason of its own.  When none of them does,
  the command prints what it is to print: canonical text, its
  digest, a text that shows an envelope, or a report.  When
  one does, it has printed nothing.  What is printed before a
  command fails can only be the report of a strict check, on
  metadata that passes and has expired.

  Main declarations:
    * `Canonicalizes`
    * `Checks`
    * `Completes`
    * `AllOrNothing`
    * `allOrNothing_run`
    * `run_all_or_nothing`
-/

namespace SignedMetadata

namespace CommandLine

open Fallible

------------------------------------------------------------
-- Complete Results
------------------------------------------------------------

section Specification

variable (environment : Environment)
variable (limits : Limits)
variable (input : Option String)

/- The canonical text of what is asked for, if it fits. -/
def Canonicalizes
    (signedOnly : Bool)
    (text : String) : Prop :=
  ∃ v,
    readPayload environment limits input signedOnly =
        .ok v ∧
      v.depth ≤ limits.maxDepth ∧
      (Text.bytes (Canonical.ofValue v)).length ≤
        limits.maxBytes ∧
      text = Canonical.ofValue v

/-
  A report on metadata that passes for a role, which is the
  expected one if there is one, and has a date of expiry.
-/
structure Passes
    (expected : Option Role)
    (payload : Value)
    (report : Report) : Prop where
  expected : ∀ wanted ∈ expected, wanted = report.role
  passes : report.role.check payload = .ok ()
  expires : Expiry.ofPayload payload = .ok report.expires
  expired :
    report.expired =
      Expiry.hasPassed report.expires environment.now

/-
  The metadata of the input: the value by itself, or the
  payload of an envelope with the number of signatures.
-/
def Offers
    (signable : Bool)
    (payload : Value)
    (signatures : Option Nat) : Prop :=
  match signable with
  | false =>
      readValue environment limits input = .ok payload ∧
        signatures = none
  | true =>
      ∃ envelope,
        readEnvelope environment limits input =
            .ok envelope ∧
          payload = envelope.signed ∧
          signatures = some envelope.signatures.length

/- A report on the metadata of the input, which passes. -/
def Checks
    (expected : Option Role)
    (signable : Bool)
    (report : Report) : Prop :=
  ∃ payload,
    Offers environment limits input signable payload
        report.signatures ∧
      Passes environment expected payload report

/- The text of a report. -/
def reportOutput (json : Bool) (report : Report) : String :=
  reportText json report.role report.expires.unzoned
    report.expired report.signatures

/- A printed report, which may be a failure if it is strict. -/
def reported
    (strict json : Bool)
    (report : Report) : Result :=
  ⟨reportOutput json report,
    if strict && report.expired then
      some (.expired report.role report.expires)
    else
      none⟩

/- The result of a command that completes. -/
def Completes (command : Command) (result : Result) : Prop :=
  match command with
  | .canonicalize signedOnly =>
      ∃ text,
        Canonicalizes environment limits input signedOnly
            text ∧
          result = .success text
  | .digest algorithm signedOnly =>
      ∃ text,
        Canonicalizes environment limits input signedOnly
            text ∧
          result =
            .success (Digest.ofText algorithm text ++ "\n")
  | .wrap =>
      ∃ envelope output,
        readEnvelope environment limits input =
            .ok envelope ∧
          Shows envelope output ∧
          result = .success output
  | .signAppend keyId method sig =>
      ∃ (signature : Signature) (envelope : Envelope)
          (output : String),
        keyId = signature.keyId.text ∧
          method = signature.method ∧
          sig = signature.sig.text ∧
          readEnvelope environment limits input =
            .ok envelope ∧
          Shows
            ⟨envelope.signed,
              envelope.signatures ++ [signature]⟩
            output ∧
          result = .success output
  | .check expected signable strict json =>
      ∃ report,
        Checks environment limits input expected signable
            report ∧
          result = reported strict json report

end Specification

------------------------------------------------------------
-- Steps
------------------------------------------------------------

/-
  A result is to be found, or there is nothing to be found
  and the result is a failure that has printed nothing.
-/
inductive AllOrNothing (found : Result → Prop) :
    Result → Prop where
| all
    {result : Result}
    (hFound : found result) :
    AllOrNothing found result
| nothing
    (hNone : ∀ result, ¬ found result)
    (failure : Failure) :
    AllOrNothing found (.failed failure)

/-
  A step without which there is nothing to be found.  It may
  fail; otherwise it is up to what is next.
-/
theorem allOrNothing_ofExcept
    {α ε : Type}
    {found : Result → Prop}
    {fail : ε → Failure}
    {computed : Except ε α}
    {next : α → Result}
    (hNeeded :
      ∀ result, found result → ∃ a, computed = .ok a)
    (hNext :
      ∀ a, computed = .ok a → AllOrNothing found (next a)) :
    AllOrNothing found (.ofExcept fail computed next) := by
  cases computed with
  | error cause =>
      refine .nothing ?_ (fail cause)
      intro result hFound
      rcases hNeeded result hFound with ⟨a, hComputed⟩
      cases hComputed
  | ok a => exact hNext a rfl

------------------------------------------------------------
-- Commands
------------------------------------------------------------

variable {environment : Environment}
variable {limits : Limits}
variable {input : Option String}

/- Canonical text is printed in some form, or none is. -/
theorem allOrNothing_canonicalizes
    (signedOnly : Bool)
    (present : String → String) :
    AllOrNothing
      (fun result =>
        ∃ text,
          Canonicalizes environment limits input signedOnly
              text ∧
            result = .success (present text))
      (.ofExcept .input
        (readPayload environment limits input signedOnly)
        fun v =>
          .ofExcept .canonicalization
            (Canonical.encode limits v) fun text =>
              .success (present text)) := by
  apply allOrNothing_ofExcept
  · rintro _ ⟨_, ⟨v, hRead, _⟩, _⟩
    exact ⟨v, hRead⟩
  intro v hRead
  apply allOrNothing_ofExcept
  · rintro _ ⟨text, ⟨w, hOther, hText⟩, _⟩
    rw [hRead] at hOther
    cases hOther
    exact ⟨text, Canonical.encode_eq_ok_iff.mpr hText⟩
  intro text hEncode
  have hText := Canonical.encode_eq_ok_iff.mp hEncode
  exact .all ⟨text, ⟨v, hRead, hText⟩, rfl⟩

/- A text that shows the envelope is printed, or none is. -/
theorem allOrNothing_wrap :
    AllOrNothing
      (Completes environment limits input .wrap)
      (wrap environment limits input) := by
  apply allOrNothing_ofExcept
  · rintro _ ⟨envelope, _, hRead, _⟩
    exact ⟨envelope, hRead⟩
  intro envelope hRead
  have hWell := wellFormed_signed_of_readEnvelope hRead
  exact .all ⟨envelope, _, hRead, shows_printed hWell, rfl⟩

/- So it is for the envelope with one more signature. -/
theorem allOrNothing_signAppend
    (keyId method sig : String) :
    AllOrNothing
      (Completes environment limits input
        (.signAppend keyId method sig))
      (signAppend environment limits input keyId method
        sig) := by
  apply allOrNothing_ofExcept
  · rintro _
      ⟨signature, _, _, hKeyId, hMethod, hSig, _⟩
    exact
      ⟨signature,
        Signature.parse_eq_ok_iff_texts.mpr
          ⟨hKeyId, hMethod, hSig⟩⟩
  intro signature hParse
  rcases Signature.parse_eq_ok_iff_texts.mp hParse with
    ⟨hKeyId, hMethod, hSig⟩
  apply allOrNothing_ofExcept
  · rintro _ ⟨_, envelope, _, _, _, _, hRead, _⟩
    exact ⟨envelope, hRead⟩
  intro envelope hRead
  have hWell := wellFormed_signed_of_readEnvelope hRead
  have hShows :
      Shows (envelope.append signature)
        (printed (envelope.append signature)) :=
    shows_printed hWell
  exact
    .all
      ⟨signature, envelope, _, hKeyId, hMethod, hSig, hRead,
        hShows, rfl⟩

/- The report on metadata that passes is reported. -/
theorem reportOn_eq
    {payload : Value}
    {role : Role}
    {t : DateTime}
    {strict json : Bool}
    (hCheck : role.check payload = .ok ())
    (hDate : Expiry.ofPayload payload = .ok t)
    (signatures : Option Nat) :
    reportOn environment payload role signatures strict json =
      reported strict json
        ⟨role, t, Expiry.hasPassed t environment.now,
          signatures⟩ := by
  rcases exists_date_of_ofPayload hCheck hDate with
    ⟨_, _, hRaw⟩
  have hRender :=
    @render_eq json
      ⟨role, t, Expiry.hasPassed t environment.now,
        signatures⟩
      hRaw
  rw [reportOn, hDate, Result.ofExcept, reported,
    reportOutput, ← hRender]

/- There is one payload with one number of signatures. -/
theorem Offers.unique
    {signable : Bool}
    {payload other : Value}
    {signatures others : Option Nat}
    (hOffers :
      Offers environment limits input signable payload
        signatures)
    (hOthers :
      Offers environment limits input signable other
        others) :
    other = payload ∧ others = signatures := by
  cases signable with
  | false =>
      rcases hOffers with ⟨hRead, rfl⟩
      rcases hOthers with ⟨hOther, rfl⟩
      rw [hRead] at hOther
      exact ⟨(Except.ok.inj hOther).symm, rfl⟩
  | true =>
      rcases hOffers with ⟨envelope, hRead, rfl, rfl⟩
      rcases hOthers with ⟨_, hOther, rfl, rfl⟩
      rw [hRead] at hOther
      cases hOther
      exact ⟨rfl, rfl⟩

section Checked

variable {expected : Option Role}
variable {signable strict json : Bool}
variable {payload : Value}
variable {signatures : Option Nat}

/- A check that completes reports on what is offered. -/
theorem Offers.exists_passes
    (hOffers :
      Offers environment limits input signable payload
        signatures)
    {result : Result}
    (hCompletes :
      Completes environment limits input
        (.check expected signable strict json) result) :
    ∃ report,
      Passes environment expected payload report := by
  rcases hCompletes with
    ⟨report, ⟨other, hOthers, hPasses⟩, _⟩
  rw [(hOffers.unique hOthers).1] at hPasses
  exact ⟨report, hPasses⟩

/-
  What is offered is reported on, or nothing is.  It does not
  matter how the error of the check is worded.
-/
theorem Offers.allOrNothing
    (hOffers :
      Offers environment limits input signable payload
        signatures)
    {checked : Except ShapeError Role}
    (hChecked :
      ∀ role, checked = .ok role ↔
        Role.checkExpected expected payload = .ok role) :
    AllOrNothing
      (Completes environment limits input
        (.check expected signable strict json))
      (.ofExcept .metadata checked fun role =>
        reportOn environment payload role signatures strict
          json) := by
  apply allOrNothing_ofExcept
  · intro result hCompletes
    rcases hOffers.exists_passes hCompletes with
      ⟨report, hPasses⟩
    refine ⟨report.role, (hChecked _).mpr ?_⟩
    exact
      Role.checkExpected_eq_ok_iff.mpr
        ⟨hPasses.expected, hPasses.passes⟩
  intro role hRole
  rw [hChecked, Role.checkExpected_eq_ok_iff] at hRole
  rcases hRole with ⟨hExpected, hCheck⟩
  cases hDate : Expiry.ofPayload payload with
  | error cause =>
      rw [reportOn, hDate]
      refine .nothing ?_ (.expiry cause)
      intro result hCompletes
      rcases hOffers.exists_passes hCompletes with
        ⟨report, hPasses⟩
      rw [hPasses.expires] at hDate
      cases hDate
  | ok t =>
      rw [reportOn_eq hCheck hDate]
      exact
        .all
          ⟨_, ⟨payload, hOffers,
            ⟨hExpected, hCheck, hDate, rfl⟩⟩, rfl⟩

/- A check reports on input that passes, or on nothing. -/
theorem allOrNothing_check :
    AllOrNothing
      (Completes environment limits input
        (.check expected signable strict json))
      (check environment limits input expected signable
        strict json) := by
  unfold check
  cases signable with
  | false =>
      apply allOrNothing_ofExcept
      · rintro _ ⟨_, ⟨payload, ⟨hRead, _⟩, _⟩, _⟩
        exact ⟨payload, hRead⟩
      intro payload hRead
      have hOffers :
          Offers environment limits input false payload
            none :=
        ⟨hRead, rfl⟩
      exact hOffers.allOrNothing fun _ => Iff.rfl
  | true =>
      apply allOrNothing_ofExcept
      · rintro _ ⟨_, ⟨_, ⟨envelope, hRead, _⟩, _⟩, _⟩
        exact ⟨envelope, hRead⟩
      intro envelope hRead
      have hOffers :
          Offers environment limits input true
            envelope.signed
            (some envelope.signatures.length) :=
        ⟨envelope, hRead, rfl, rfl⟩
      exact hOffers.allOrNothing fun _ => mapError_eq_ok_iff

end Checked

/- Every command has its complete result, or fails at once. -/
theorem allOrNothing_run (command : Command) :
    AllOrNothing
      (Completes environment limits input command)
      (Invocation.run environment
        ⟨limits, input, command⟩) := by
  cases command with
  | canonicalize signedOnly =>
      have hCommand :
          Invocation.run environment
              ⟨limits, input, .canonicalize signedOnly⟩ =
            _ :=
        canonicalize_eq signedOnly
      rw [hCommand]
      exact allOrNothing_canonicalizes signedOnly id
  | digest algorithm signedOnly =>
      have hCommand :
          Invocation.run environment
              ⟨limits, input,
                .digest algorithm signedOnly⟩ =
            _ :=
        digest_eq algorithm signedOnly
      rw [hCommand]
      exact
        allOrNothing_canonicalizes signedOnly fun text =>
          Digest.ofText algorithm text ++ "\n"
  | wrap => exact allOrNothing_wrap
  | signAppend keyId method sig =>
      exact allOrNothing_signAppend keyId method sig
  | check expected signable strict json =>
      exact allOrNothing_check

------------------------------------------------------------
-- Outcomes
------------------------------------------------------------

/- Every report has some text. -/
theorem reportOutput_ne_empty
    (json : Bool)
    (report : Report) :
    reportOutput json report ≠ "" := by
  have hBrace : "\n\x7d\n" ≠ "" := by decide
  have hRole : "ROLE         " ≠ "" := by decide
  rw [reportOutput, reportText]
  split_ifs <;>
    simp only [Ne, String.append_eq_empty_iff, hBrace, hRole,
      false_and, and_false, not_false_iff]

/- Canonical text is not empty. -/
theorem Canonicalizes.ne_empty
    {signedOnly : Bool}
    {text : String}
    (hText :
      Canonicalizes environment limits input signedOnly
        text) :
    text ≠ "" := by
  rcases hText with ⟨v, _, _, _, rfl⟩
  rcases Canonical.exists_cons_ofValue v with
    ⟨c, cs, hCons, _⟩
  intro hEmpty
  rw [hEmpty] at hCons
  cases hCons

/-
  What completes is a success with some output, or the report
  of a strict check on what has expired.
-/
theorem completes_cases
    {command : Command}
    {result : Result}
    (hCompletes :
      Completes environment limits input command result) :
    (∃ output, output ≠ "" ∧ result = .success output) ∨
      ∃ expected signable json report,
        command = .check expected signable true json ∧
          Checks environment limits input expected signable
            report ∧
          report.expired = true ∧
          result = reported true json report := by
  cases command with
  | canonicalize signedOnly =>
      rcases hCompletes with ⟨text, hText, hResult⟩
      exact Or.inl ⟨text, hText.ne_empty, hResult⟩
  | digest algorithm signedOnly =>
      rcases hCompletes with ⟨text, _, hResult⟩
      refine Or.inl ⟨_, ?_, hResult⟩
      rw [Ne, String.append_eq_empty_iff]
      rintro ⟨_, hLine⟩
      exact absurd hLine (by decide)
  | wrap =>
      rcases hCompletes with ⟨_, output, _, hShows, hResult⟩
      exact Or.inl ⟨output, hShows.ne_empty, hResult⟩
  | signAppend keyId method sig =>
      rcases hCompletes with
        ⟨_, _, output, _, _, _, _, hShows, hResult⟩
      exact Or.inl ⟨output, hShows.ne_empty, hResult⟩
  | check expected signable strict json =>
      rcases hCompletes with ⟨report, hChecks, rfl⟩
      by_cases hFails : strict && report.expired
      · rw [Bool.and_eq_true] at hFails
        rcases hFails with ⟨rfl, hExpired⟩
        exact
          Or.inr
            ⟨expected, signable, json, report, rfl, hChecks,
              hExpired, rfl⟩
      · refine
          Or.inl
            ⟨reportOutput json report,
              reportOutput_ne_empty json report, ?_⟩
        rw [reported, if_neg hFails, Result.success]

/-
  Commands are all or nothing.  A command line that asks for
  a command ends in one of three ways.  It prints the whole
  result of the command, with code 0 and no error; or it is
  a strict check of metadata that passes and has expired,
  which prints the whole report and fails; or the command has
  no result, and it prints nothing and fails.
-/
theorem run_all_or_nothing
    {arguments : List String}
    {command : Command}
    (hParse :
      Request.parse? arguments =
        some (.run ⟨limits, input, command⟩)) :
    (∃ output,
      output ≠ "" ∧
        Completes environment limits input command
          (.success output) ∧
        run environment arguments = ⟨0, output, ""⟩) ∨
      (∃ expected signable json report,
        command = .check expected signable true json ∧
          Checks environment limits input expected signable
            report ∧
          report.expired = true ∧
          reportOutput json report ≠ "" ∧
          run environment arguments =
            ⟨1, reportOutput json report,
              "Error: " ++
                (Failure.expired report.role
                  report.expires).message ++ "\n"⟩) ∨
        (∀ result,
          ¬ Completes environment limits input command
            result) ∧
          ∃ failure : Failure,
            run environment arguments =
              ⟨1, "",
                "Error: " ++ failure.message ++ "\n"⟩ := by
  have hRun :
      run environment arguments =
        (Invocation.run environment
          ⟨limits, input, command⟩).outcome := by
    rw [run, hParse]
  have hEnds :
      AllOrNothing
        (Completes environment limits input command)
        (Invocation.run environment
          ⟨limits, input, command⟩) :=
    allOrNothing_run command
  rw [hRun]
  generalize
    Invocation.run environment ⟨limits, input, command⟩ =
      result at hEnds
  cases hEnds with
  | all hCompletes =>
      rcases completes_cases hCompletes with
        ⟨output, hSome, rfl⟩ |
          ⟨expected, signable, json, report, rfl, hChecks,
            hExpired, rfl⟩
      · exact Or.inl ⟨output, hSome, hCompletes, rfl⟩
      · have hOutcome :
            (reported true json report).outcome =
              ⟨1, reportOutput json report,
                "Error: " ++
                  (Failure.expired report.role
                    report.expires).message ++ "\n"⟩ := by
          rw [reported, hExpired]
          rfl
        exact
          Or.inr
            (Or.inl
              ⟨expected, signable, json, report, rfl,
                hChecks, hExpired,
                reportOutput_ne_empty json report, hOutcome⟩)
  | nothing hNone failure =>
      exact Or.inr (Or.inr ⟨hNone, failure, rfl⟩)

/- The envelope of nothing, as it is printed. -/
def nullEnvelope : String :=
  "\x7b\n  \"signed\": null,\n  \"signatures\": []\n\x7d\n"

/- The arguments that append a record of short hex digits. -/
def shortAppend : List String :=
  ["sign-append", "--keyid", "aB", "--method", "m", "--sig",
    "0F"]

/-
  Nothing is wrapped and signed, a strict check reports what
  has expired, and a file is missing.
-/
theorem run_all_or_nothing_strict :
    (Shows (.new .null) nullEnvelope ∧
      run (.piped "null") ["wrap"] =
        ⟨0, nullEnvelope, ""⟩) ∧
      (∃ output,
        Shows ⟨.null, [Envelope.shortRecord]⟩ output ∧
          run (.piped nullEnvelope) shortAppend =
            ⟨0, output, ""⟩) ∧
      (∃ report,
        Checks afterLeap .standard none none false report ∧
          report.expired = true ∧
          (run afterLeap ["check", "--strict"]).output =
            reportOutput false report) ∧
      (∀ result,
        ¬ Completes afterLeap .standard (some "absent")
          (.canonicalize false) result) ∧
        (run afterLeap ["canonicalize", "absent"]).output =
          "" := by
  have hWrap :
      Request.parse? ["wrap"] =
        some (.run ⟨.standard, none, .wrap⟩) := by
    decide +kernel
  have hAppend :
      Request.parse? shortAppend =
        some
          (.run
            ⟨.standard, none, .signAppend "aB" "m" "0F"⟩) := by
    decide +kernel
  have hStrict :
      Request.parse? ["check", "--strict"] =
        some
          (.run
            ⟨.standard, none,
              .check none false true false⟩) := by
    decide +kernel
  have hAbsent :
      Request.parse? ["canonicalize", "absent"] =
        some
          (.run
            ⟨.standard, some "absent",
              .canonicalize false⟩) := by
    decide +kernel
  have hNull :
      readEnvelope (.piped "null") .standard none =
        .ok (.new .null) := by
    decide +kernel
  have hAgain :
      readEnvelope (.piped nullEnvelope) .standard none =
        .ok (.new .null) := by
    decide +kernel
  have hWrapped :
      run (.piped "null") ["wrap"] =
        ⟨0, nullEnvelope, ""⟩ := by
    decide +kernel
  have hAppended :
      (run (.piped nullEnvelope) shortAppend).code = 0 := by
    decide +kernel
  have hCode :
      (run afterLeap ["check", "--strict"]).code = 1 := by
    decide +kernel
  have hOutput :
      (run afterLeap ["check", "--strict"]).output ≠ "" := by
    decide +kernel
  have hFailed :
      (run afterLeap ["canonicalize", "absent"]).code = 1 := by
    decide +kernel
  refine ⟨?_, ?_, ?_, ?_⟩
  · rcases run_all_or_nothing hWrap with
      ⟨output, _, ⟨envelope, shown, hRead, hShows, hSame⟩,
          hRun⟩ |
        ⟨_, _, _, _, hCommand, _⟩ | ⟨_, failure, hRun⟩
    · rw [hNull] at hRead
      cases hRead
      cases hSame
      rw [hWrapped] at hRun
      cases hRun
      exact ⟨hShows, hWrapped⟩
    · cases hCommand
    · rw [hWrapped] at hRun
      cases hRun
  · rcases run_all_or_nothing hAppend with
      ⟨output, _, ⟨signature, envelope, shown, hKeyId, hMethod,
          hSig, hRead, hShows, hSame⟩, hRun⟩ |
        ⟨_, _, _, _, hCommand, _⟩ | ⟨_, failure, hRun⟩
    · have hSigned : signature = Envelope.shortRecord :=
        Except.ok.inj
          ((Signature.parse_eq_ok_iff_texts.mpr
              ⟨hKeyId, hMethod, hSig⟩).symm.trans
            (Signature.parse_eq_ok_iff_texts.mpr
              ⟨rfl, rfl, rfl⟩))
      rw [hAgain] at hRead
      cases hRead
      cases hSame
      rw [hSigned] at hShows
      exact ⟨output, hShows, hRun⟩
    · cases hCommand
    · rw [hRun] at hAppended
      cases hAppended
  · rcases run_all_or_nothing hStrict with
      ⟨_, _, _, hRun⟩ |
        ⟨_, _, _, report, hCommand, hChecks, hExpired, _,
          hRun⟩ |
          ⟨_, _, hRun⟩
    · rw [hRun] at hCode
      cases hCode
    · cases hCommand
      exact ⟨report, hChecks, hExpired, by rw [hRun]⟩
    · rw [hRun] at hOutput
      exact absurd rfl hOutput
  · rcases run_all_or_nothing hAbsent with
      ⟨_, _, _, hRun⟩ | ⟨_, _, _, _, hCommand, _⟩ |
        ⟨hNone, _, hRun⟩
    · rw [hRun] at hFailed
      cases hFailed
    · cases hCommand
    · exact ⟨hNone, by rw [hRun]⟩

end CommandLine

end SignedMetadata
