import SignedMetadata.Proofs.CommandLine.Check
import SignedMetadata.Proofs.Expiry.Printing

/-
  What a check reports.

  A report is one text in which the role, the date and the
  status stand at fixed places, as a table or as JSON data.
  A check fails without a report, or it reports on the payload
  of its input, which passes for a role and has an expiry.
  The date in the report is then the text of the payload, with
  the offset from UTC in place of the last mark in JSON.

  Main declarations:
    * `reportText`
    * `render_table`
    * `render_json`
    * `check_cases`
    * `check_reports_date_as_written`
-/

namespace SignedMetadata

namespace CommandLine

open Fallible

------------------------------------------------------------
-- Texts of Reports
------------------------------------------------------------

/- A count between two texts, if there is one. -/
def countText
    (lead behind : String) : Option Nat → String
| none => ""
| some count => lead ++ Text.ofNatural count ++ behind

/- A report whose date is a text, without its zone. -/
def reportText
    (json : Bool)
    (role : Role)
    (date : String)
    (expired : Bool)
    (signatures : Option Nat) : String :=
  if json then
    "\x7b\n  \"expired\": " ++
      (if expired then "true" else "false") ++
      ",\n  \"expires\": \"" ++ date ++ "+00:00\"" ++
      ",\n  \"role\": \"" ++ role.typeName ++ "\"" ++
      countText ",\n  \"signatures\": " "" signatures ++
      "\n\x7d\n"
  else
    "ROLE         " ++ role.typeName ++ "\n" ++
      "EXPIRES      " ++ date ++ "Z\n" ++
      "STATUS       " ++
      (if expired then "EXPIRED" else "valid") ++ "\n" ++
      countText "SIGNATURES   " "\n" signatures

/- A row of a table, when its label is known. -/
theorem row_label
    (label lead text : String)
    (hLead :
      label ++
          String.ofList
            (List.replicate (12 - label.length) ' ') ++
          " " =
        lead) :
    Report.row label text = lead ++ text ++ "\n" := by
  rw [Report.row, hLead]

/- A table holds the date with the mark of the zone. -/
theorem render_table (report : Report) :
    report.render false =
      reportText false report.role report.expires.unzoned
        report.expired report.signatures := by
  rcases report with ⟨role, expires, expired, signatures⟩
  rw [Report.render, reportText, if_neg Bool.false_ne_true,
    if_neg Bool.false_ne_true, Report.toTable,
    row_label "ROLE" "ROLE         " _ (by decide),
    row_label "EXPIRES" "EXPIRES      " _ (by decide),
    row_label "STATUS" "STATUS       " _ (by decide)]
  have hMark : "Z\n" = "Z" ++ "\n" := by decide
  rw [DateTime.zulu_eq, hMark, Report.status]
  simp only [String.append_assoc]
  cases signatures with
  | none => rw [countText]
  | some count =>
      dsimp only
      rw [countText,
        row_label "SIGNATURES" "SIGNATURES   " _ (by decide)]

/- JSON text holds the date with the offset of the zone. -/
theorem render_json
    (report : Report)
    (hDate : Json.IsRaw report.expires.unzoned) :
    report.render true =
      reportText true report.role report.expires.unzoned
        report.expired report.signatures := by
  have hLabels :
      ∀ label ∈ ["expired", "expires", "role", "signatures"],
        Json.IsRaw label := by
    decide
  simp only [List.forall_mem_cons] at hLabels
  rcases hLabels with
    ⟨hExpired, hExpires, hRole, hSignatures, _⟩
  have hName : Json.IsRaw report.role.typeName := by
    cases report.role <;> decide
  have hZoned :
      Json.IsRaw (report.expires.unzoned ++ "+00:00") :=
    Json.isRaw_append_iff.mpr ⟨hDate, by decide⟩
  have hOuter : Json.newLine 0 = "\n" := by decide
  have hInner : Json.newLine 1 = "\n  " := by decide
  rw [Report.render, reportText, if_pos rfl, if_pos rfl,
    Report.toJson, Json.pretty]
  apply String.toList_inj.mp
  cases report.signatures <;> cases report.expired <;>
    simp [Json.prettyAt, Json.prettyMembers, countText,
      Json.printedString_of_isRaw hExpired,
      Json.printedString_of_isRaw hExpires,
      Json.printedString_of_isRaw hRole,
      Json.printedString_of_isRaw hSignatures,
      Json.printedString_of_isRaw hName,
      Json.printedString_of_isRaw hZoned,
      DateTime.rfc3339_eq, hOuter, hInner]

------------------------------------------------------------
-- Steps of Checks
------------------------------------------------------------

variable {environment : Environment}
variable {limits : Limits}
variable {input : Option String}
variable {expected : Option Role}
variable {signable strict json : Bool}

/- A command fails at a step, or goes on with its result. -/
theorem ofExcept_cases
    {ε α : Type}
    (fail : ε → Failure)
    (computed : Except ε α)
    (next : α → Result) :
    (∃ failure,
      Result.ofExcept fail computed next =
        .failed failure) ∨
      ∃ a, computed = .ok a ∧
        Result.ofExcept fail computed next = next a := by
  cases computed with
  | error cause => exact Or.inl ⟨fail cause, rfl⟩
  | ok a => exact Or.inr ⟨a, rfl, rfl⟩

/- What is reported is the date of expiry, if there is one. -/
theorem reportOn_cases
    (payload : Value)
    (role : Role)
    (signatures : Option Nat) :
    (∃ failure,
      reportOn environment payload role signatures strict
          json =
        .failed failure) ∨
      ∃ t, Expiry.ofPayload payload = .ok t ∧
        (reportOn environment payload role signatures strict
            json).printed =
          Report.render json
            { role := role
              expires := t
              expired := Expiry.hasPassed t environment.now
              signatures := signatures } := by
  unfold reportOn
  rcases ofExcept_cases .expiry (Expiry.ofPayload payload) _
    with ⟨failure, hFails⟩ | ⟨t, hDate, hNext⟩
  · exact Or.inl ⟨failure, hFails⟩
  · refine Or.inr ⟨t, hDate, ?_⟩
    rw [hNext]

/-
  A check reports on the payload of the input, which passes
  for the role, or it fails before it prints anything.
-/
theorem check_cases :
    (∃ failure,
      check environment limits input expected signable strict
          json =
        .failed failure) ∨
      ∃ payload role signatures,
        readPayload environment limits input signable =
            .ok payload ∧
          Role.check role payload = .ok () ∧
          signatures.isSome = signable ∧
          check environment limits input expected signable
              strict json =
            reportOn environment payload role signatures
              strict json := by
  unfold check
  cases signable with
  | false =>
      rw [if_neg Bool.false_ne_true]
      rcases ofExcept_cases .input
          (readValue environment limits input) _ with
        ⟨failure, hFails⟩ | ⟨payload, hRead, hNext⟩
      · exact Or.inl ⟨failure, hFails⟩
      rw [hNext]
      rcases ofExcept_cases .metadata
          (Role.checkExpected expected payload) _ with
        ⟨failure, hFails⟩ | ⟨role, hRole, hNext⟩
      · exact Or.inl ⟨failure, hFails⟩
      exact
        Or.inr
          ⟨payload, role, none, hRead,
            Role.check_of_checkExpected hRole, rfl, hNext⟩
  | true =>
      rw [if_pos rfl]
      rcases ofExcept_cases .input
          (readEnvelope environment limits input) _ with
        ⟨failure, hFails⟩ | ⟨envelope, hRead, hNext⟩
      · exact Or.inl ⟨failure, hFails⟩
      rw [hNext]
      rcases ofExcept_cases .metadata
          (envelope.checkRole expected) _ with
        ⟨failure, hFails⟩ | ⟨role, hRole, hNext⟩
      · exact Or.inl ⟨failure, hFails⟩
      rw [Envelope.checkRole, mapError_eq_ok_iff] at hRole
      exact
        Or.inr
          ⟨envelope.signed, role,
            some envelope.signatures.length,
            readPayload_of_readEnvelope hRead,
            Role.check_of_checkExpected hRole, rfl, hNext⟩

------------------------------------------------------------
-- Reported Dates
------------------------------------------------------------

/- What is printed does not depend on how a command ends. -/
theorem outcome_output (result : Result) :
    result.outcome.output = result.printed := by
  unfold Result.outcome
  cases result.failure <;> rfl

/- A command that fails at once does not print or end well. -/
theorem failed_prints_nothing (failure : Failure) :
    ¬ ((Result.failed failure).outcome.code = 0 ∨
      (Result.failed failure).outcome.output ≠ "") := by
  rintro (hCode | hOutput)
  · exact absurd hCode Nat.one_ne_zero
  · exact hOutput rfl

/-
  The date of a payload that passes and has an expiry is
  printed as it is written, in either form.
-/
theorem exists_date_of_ofPayload
    {payload : Value}
    {role : Role}
    {t : DateTime}
    (hCheck : role.check payload = .ok ())
    (hDate : Expiry.ofPayload payload = .ok t) :
    payload.get? "expires" =
        some (.string (t.unzoned ++ "Z")) ∧
      t.IsValid ∧
      Json.IsRaw t.unzoned := by
  rcases Expiry.exists_stamp_of_ofPayload hCheck hDate with
    ⟨s, hFits, hText, hValid, rfl⟩
  rw [← DateTime.zulu_eq, Stamp.zulu_dateTime hFits]
  exact ⟨hText, hValid, Stamp.isRaw_unzoned hFits⟩

/- A report on such a payload holds its text. -/
theorem render_eq
    (report : Report)
    (hDate : Json.IsRaw report.expires.unzoned) :
    report.render json =
      reportText json report.role report.expires.unzoned
        report.expired report.signatures := by
  cases json with
  | false => exact render_table report
  | true => exact render_json report hDate

/-
  The expiry of metadata that passes for a role is printed as
  the text that the metadata holds, and with the offset from
  UTC as that text with another end; no other date and time
  is at the same instant.  So a check that prints anything,
  as all do that end well, prints the report with the text of
  the payload.
-/
theorem check_reports_date_as_written :
    (∀ (role : Role) (p : Value) (t : DateTime),
      role.check p = .ok () →
      Expiry.ofPayload p = .ok t →
        ∃ date,
          p.get? "expires" = some (.string (date ++ "Z")) ∧
          t.zulu = date ++ "Z" ∧
          t.rfc3339 = date ++ "+00:00" ∧
          t.IsValid ∧
          ∀ u : DateTime, u.IsValid →
            u.instant = t.instant → u = t) ∧
      ∀ (environment : Environment) (arguments : List String)
        (limits : Limits) (input : Option String)
        (expected : Option Role)
        (signable strict json : Bool),
        Request.parse? arguments =
            some
              (.run
                ⟨limits, input,
                  .check expected signable strict json⟩) →
        (run environment arguments).code = 0 ∨
            (run environment arguments).output ≠ "" →
          ∃ payload role date t signatures,
            readPayload environment limits input signable =
                .ok payload ∧
              Role.check role payload = .ok () ∧
              payload.get? "expires" =
                some (.string (date ++ "Z")) ∧
              Expiry.ofPayload payload = .ok t ∧
              signatures.isSome = signable ∧
              (run environment arguments).output =
                reportText json role date
                  (Expiry.hasPassed t environment.now)
                  signatures := by
  constructor
  · intro role p t hCheck hDate
    rcases exists_date_of_ofPayload hCheck hDate with
      ⟨hText, hValid, _⟩
    exact
      ⟨t.unzoned, hText, t.zulu_eq, t.rfc3339_eq, hValid,
        fun u hU hSame =>
          (DateTime.instant_inj hU hValid).mp hSame⟩
  · intro environment arguments limits input expected signable
      strict json hParse hPrints
    rw [run_check hParse] at hPrints ⊢
    rcases check_cases with
      ⟨failure, hFails⟩ |
        ⟨payload, role, signatures, hRead, hCheck, hCount,
          hReport⟩
    · rw [hFails] at hPrints
      exact absurd hPrints (failed_prints_nothing failure)
    rw [hReport] at hPrints ⊢
    rcases reportOn_cases payload role signatures with
      ⟨failure, hFails⟩ | ⟨t, hDate, hPrinted⟩
    · rw [hFails] at hPrints
      exact absurd hPrints (failed_prints_nothing failure)
    rcases exists_date_of_ofPayload hCheck hDate with
      ⟨hText, _, hRaw⟩
    refine
      ⟨payload, role, t.unzoned, t, signatures, hRead, hCheck,
        hText, hDate, hCount, ?_⟩
    rw [outcome_output, hPrinted]
    exact render_eq _ hRaw

/- A timestamp that expires at the end of a leap second. -/
def leapText : String :=
  "\x7b\"_type\":\"Timestamp\",\"version\":1," ++
    "\"expires\":\"2016-12-31T23:59:60Z\",\"meta\":\x7b\x7d\x7d"

/- It is there on standard input a second later. -/
def afterLeap : Environment :=
  { Environment.piped leapText with now := ⟨1483228800, 0⟩ }

/- A strict check reports the leap second, and fails. -/
theorem check_reports_date_as_written_leap :
    DateTime.zulu ⟨⟨2016, 12, 31⟩, 23, 59, 60⟩ =
        "2016-12-31T23:59:60Z" ∧
      (run afterLeap ["check", "--json", "--strict"]).code =
        1 ∧
      (run afterLeap ["check", "--json", "--strict"]).output =
        "\x7b\n  \"expired\": true," ++
          "\n  \"expires\": \"2016-12-31T23:59:60+00:00\"," ++
            "\n  \"role\": \"Timestamp\"\n\x7d\n" := by
  have hParse :
      Request.parse? ["check", "--json", "--strict"] =
        some
          (.run
            ⟨.standard, none,
              .check none false true true⟩) := by
    decide +kernel
  have hPrints :
      (run afterLeap ["check", "--json", "--strict"]).output ≠
        "" := by
    decide +kernel
  have hCode :
      (run afterLeap ["check", "--json", "--strict"]).code =
        1 := by
    decide +kernel
  have hRead :
      readPayload afterLeap .standard none false =
        .ok (Expiry.expiring "2016-12-31T23:59:60Z") := by
    decide +kernel
  have hDate :
      Expiry.ofPayload
          (Expiry.expiring "2016-12-31T23:59:60Z") =
        .ok ⟨⟨2016, 12, 31⟩, 23, 59, 60⟩ := by
    decide +kernel
  rcases check_reports_date_as_written with ⟨hDates, hReport⟩
  rcases hReport _ _ _ _ _ _ _ _ hParse (.inr hPrints) with
    ⟨payload, role, date, t, signatures, hPayload, hCheck,
      hText, hTime, hCount, hOutput⟩
  rw [hRead, Except.ok.injEq] at hPayload
  subst hPayload
  rw [hDate, Except.ok.injEq] at hTime
  subst hTime
  rcases hDates role _ _ hCheck hDate with
    ⟨written, hWritten, hZulu, _⟩
  have hRole : role.typeName = "Timestamp" :=
    (Value.string.inj
      (Option.some.inj
        (Role.get?_of_describes
          (Role.check_iff_describes.mp hCheck)))).symm
  have hEnd : date ++ "Z" = "2016-12-31T23:59:60" ++ "Z" :=
    (Value.string.inj (Option.some.inj hText)).symm
  rw [String.append_left_inj] at hEnd
  rw [Option.isSome_eq_false_iff, Option.isNone_iff_eq_none]
    at hCount
  refine ⟨?_, hCode, ?_⟩
  · rw [hZulu]
    exact
      (Value.string.inj (Option.some.inj hWritten)).symm
  · rw [hOutput, hEnd, hCount, reportText, hRole]
    decide

end CommandLine

end SignedMetadata
