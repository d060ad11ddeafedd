import SignedMetadata.Proofs.CommandLine.Arguments
import SignedMetadata.Proofs.CommandLine.Canonicalize

/-
  The command that appends signatures to envelopes.

  Each run reads an envelope, and prints it with one more
  signature in a text that is read as exactly that.  So any
  number of runs, each on the output of the one before, keep
  the payload and the signatures that are there, and what is
  signed stays the same.

  Main declarations:
    * `signAppendArguments`
    * `Runs`
    * `run_signAppend_of_read`
    * `exists_runs_of_read`
    * `sign_append_keeps_signed_text`
-/

namespace SignedMetadata

namespace CommandLine

open Fallible

variable {environment : Environment}
variable {limits : Limits}
variable {text : String}
variable {p : Value}
variable {envelope : Envelope}
variable {signature : Signature}
variable {signatures earlier : List Signature}

------------------------------------------------------------
-- Command Lines
------------------------------------------------------------

/- The arguments ask for a command on standard input. -/
def Asks
    (limits : Limits)
    (command : Command)
    (arguments : List String) : Prop :=
  Request.parse? arguments =
    some (.run ⟨limits, none, command⟩)

/- The command that appends a signature. -/
def appending (signature : Signature) : Command :=
  .signAppend signature.keyId.text signature.method
    signature.sig.text

/- The options that give a signature and limits. -/
def signAppendOptions
    (limits : Limits)
    (signature : Signature) : List (String × String) :=
  [("keyid", signature.keyId.text),
    ("method", signature.method),
    ("sig", signature.sig.text),
    ("max-depth", Text.ofNatural limits.maxDepth),
    ("max-bytes", Text.ofNatural limits.maxBytes)]

/- A command line that appends a signature. -/
def signAppendArguments
    (limits : Limits)
    (signature : Signature) : List String :=
  "sign-append" ::
    (signAppendOptions limits signature).flatMap
      KnownOptions.arguments

/- The options that the command takes are all known. -/
theorem takes_signAppendOptions
    (hDepth : limits.maxDepth ≤ Limits.unbounded.maxDepth)
    (hBytes : limits.maxBytes ≤ Limits.unbounded.maxBytes)
    (hMethod : '-' ∉ signature.method.toList.head?) :
    ∃ known,
      commandOptions? "sign-append" = some known ∧
        ∀ option ∈ signAppendOptions limits signature,
          known.Takes option := by
  have hDepthWord := word?_ofNatural hDepth
  have hBytesWord := word?_ofNatural hBytes
  have hNamed :
      ∀ name ∈ ["keyid", "method", "sig", "max-depth",
          "max-bytes"],
        Argument.ofText ("--" ++ name) =
          .option name none := by
    decide
  refine ⟨_, rfl, ?_⟩
  intro option hOption
  simp only [signAppendOptions, List.mem_cons,
    List.not_mem_nil, or_false] at hOption
  rcases hOption with rfl | rfl | rfl | rfl | rfl
  · exact
      ⟨hNamed "keyid" (by decide), rfl, ⟨_, rfl, rfl⟩,
        dash_notMem_hex signature.keyId⟩
  · exact
      ⟨hNamed "method" (by decide), rfl, ⟨_, rfl, rfl⟩,
        hMethod⟩
  · exact
      ⟨hNamed "sig" (by decide), rfl, ⟨_, rfl, rfl⟩,
        dash_notMem_hex signature.sig⟩
  · refine
      ⟨hNamed "max-depth" (by decide), rfl, ⟨_, rfl, ?_⟩,
        dash_notMem_ofNatural limits.maxDepth⟩
    rw [hDepthWord]
    rfl
  · refine
      ⟨hNamed "max-bytes" (by decide), rfl, ⟨_, rfl, ?_⟩,
        dash_notMem_ofNatural limits.maxBytes⟩
    rw [hBytesWord]
    rfl

/- Every signature can be given, but for some methods. -/
theorem asks_signAppendArguments
    (hDepth : limits.maxDepth ≤ Limits.unbounded.maxDepth)
    (hBytes : limits.maxBytes ≤ Limits.unbounded.maxBytes)
    (hMethod : '-' ∉ signature.method.toList.head?) :
    Asks limits (appending signature)
      (signAppendArguments limits signature) := by
  have hDepthWord := word?_ofNatural hDepth
  have hBytesWord := word?_ofNatural hBytes
  rcases takes_signAppendOptions hDepth hBytes hMethod with
    ⟨known, hKnown, hTakes⟩
  have hNodup :
      ["keyid", "method", "sig", "max-depth",
        "max-bytes"].Nodup := by
    decide
  have hName :
      Argument.ofText "sign-append" =
        .operand "sign-append" := by
    decide
  have hInvoked :
      invocation? "sign-append" .nothing
          ⟨[], (signAppendOptions limits signature).reverse,
            []⟩ =
        some ⟨limits, none, appending signature⟩ := by
    simp [invocation?, limit?, optional?, command?,
      signAppendOptions, Given.value?, Given.nothing,
      List.lookup_cons, hDepthWord, hBytesWord, appending]
  have hInvocation :
      invocation (signAppendArguments limits signature) =
        .ok ⟨limits, none, appending signature⟩ :=
    invocation_of_options hName (by decide) hKnown hTakes
      hNodup hInvoked
  rw [Asks, Request.parse?, hInvocation]

------------------------------------------------------------
-- One Run
------------------------------------------------------------

/- A run prints the envelope with the signature. -/
theorem run_signAppend_of_read
    {line : List String}
    (hAsks : Asks limits (appending signature) line)
    (hRead :
      readEnvelope environment limits none = .ok envelope) :
    run environment line =
      ⟨0, printed (envelope.append signature), ""⟩ := by
  have hRun :
      run environment line =
        (signAppend environment limits none
          signature.keyId.text signature.method
          signature.sig.text).outcome := by
    rw [run, hAsks]
    rfl
  have hParse :
      Signature.parse signature.keyId.text signature.method
          signature.sig.text =
        .ok signature :=
    Signature.parse_eq_ok_iff_texts.mpr ⟨rfl, rfl, rfl⟩
  rw [hRun, signAppend, hParse, Result.ofExcept, hRead]
  rfl

/- What a run prints is read as the envelope it has made. -/
theorem readEnvelope_append
    (hFirst : envelope.signed.NotFirst literalKey)
    (hRoom :
      max (envelope.signed.depth + 1) 3 ≤
        min limits.maxDepth Json.maxOpen)
    (hWell : envelope.signed.WellFormed)
    (environment : Environment)
    (signature : Signature) :
    readEnvelope
        (environment.withInput
          (printed (envelope.append signature)))
        limits none =
      .ok (envelope.append signature) := by
  have hSome :
      envelope.signatures ++ [signature] ≠ [] := by
    exact List.append_ne_nil_of_right_ne_nil _ (by simp)
  have hDepth :
      (envelope.append signature).toValue.depth =
        max (envelope.signed.depth + 1) 3 := by
    rw [Envelope.depth_toValue, Envelope.append,
      if_neg hSome]
  have hPlain :
      (envelope.append signature).toJson.tree.Plain :=
    Envelope.plain_toJson hFirst
  have hWell' :
      (envelope.append signature).signed.WellFormed := hWell
  rw [readEnvelope_printed_iff hWell' hPlain, hDepth]
  exact ⟨hRoom, rfl⟩

------------------------------------------------------------
-- Any Number of Runs
------------------------------------------------------------

/-
  Command lines that are run one after another, each on the
  output of the one before, and all with code 0.
-/
inductive Runs (environment : Environment) :
    List (List String) → String → String → Prop where
| none
    (text : String) :
    Runs environment [] text text
| next
    {line : List String} {lines : List (List String)}
    {text output last : String}
    (hRun :
      run (environment.withInput text) line =
        ⟨0, output, ""⟩)
    (hRest : Runs environment lines output last) :
    Runs environment (line :: lines) text last

/-
  Runs that append signatures keep the payload and all of the
  signatures before them.
-/
theorem exists_runs_of_read
    {lines : List (List String)}
    (hFirst : p.NotFirst literalKey)
    (hRoom :
      max (p.depth + 1) 3 ≤ min limits.maxDepth Json.maxOpen)
    (hLines :
      List.Forall₂
        (fun signature line =>
          Asks limits (appending signature) line)
        signatures lines)
    (hRead :
      readEnvelope (environment.withInput text) limits none =
        .ok ⟨p, earlier⟩) :
    ∃ last,
      Runs environment lines text last ∧
        readEnvelope (environment.withInput last) limits
            none =
          .ok ⟨p, earlier ++ signatures⟩ := by
  induction hLines generalizing text earlier with
  | nil =>
      rw [List.append_nil]
      exact ⟨text, .none text, hRead⟩
  | @cons signature line signatures lines hAsks _ ih =>
      have hWell := wellFormed_signed_of_readEnvelope hRead
      have hRun := run_signAppend_of_read hAsks hRead
      have hNext :=
        @readEnvelope_append limits ⟨p, earlier⟩ hFirst hRoom
          hWell environment signature
      rcases ih hNext with ⟨last, hRuns, hLast⟩
      rw [List.append_assoc, List.singleton_append] at hLast
      exact ⟨last, .next hRun hRuns, hLast⟩

/-
  Appending any number of signatures, each by a run on the
  output of the one before, succeeds, if there is room for
  the envelope.  Every signature can be given on a command
  line, together with limits of 64 bits, unless its method
  starts with a dash.  What is read in the end is the payload
  that was there at first, and all signatures in order.  The
  canonical text of the payload is printed as it was before.
-/
theorem sign_append_keeps_signed_text
    (hRead :
      readEnvelope (environment.withInput text) limits none =
        .ok ⟨p, earlier⟩)
    (hAvoids : p.Avoids literalKey)
    (hRoom : max (p.depth + 1) 3 ≤ min limits.maxDepth 127)
    (hDepth : limits.maxDepth ≤ Limits.unbounded.maxDepth)
    (hBytes : limits.maxBytes ≤ Limits.unbounded.maxBytes)
    (hMethods :
      ∀ signature ∈ signatures,
        '-' ∉ signature.method.toList.head?) :
    (∀ signature ∈ signatures,
      Asks limits (appending signature)
        (signAppendArguments limits signature)) ∧
      ∀ lines : List (List String),
        List.Forall₂
            (fun signature line =>
              Asks limits (appending signature) line)
            signatures lines →
          ∃ last,
            Runs environment lines text last ∧
              readEnvelope (environment.withInput last)
                  limits none =
                .ok ⟨p, earlier ++ signatures⟩ ∧
              ∀ arguments,
                Asks limits (.canonicalize true) arguments →
                  run (environment.withInput last)
                      arguments =
                    canonicalOutcome limits p ∧
                  run (environment.withInput text)
                      arguments =
                    canonicalOutcome limits p ∧
                  (readValue (environment.withInput text)
                        limits none =
                      .ok p →
                    ∀ plain,
                      Asks limits (.canonicalize false)
                          plain →
                        run (environment.withInput text)
                            plain =
                          canonicalOutcome limits p) := by
  have hFirst := Value.notFirst_of_avoids p hAvoids
  have hPayload : p.depth ≤ limits.maxDepth := by omega
  constructor
  · intro signature hMember
    exact
      asks_signAppendArguments hDepth hBytes
        (hMethods signature hMember)
  · intro lines hLines
    rcases exists_runs_of_read hFirst hRoom hLines hRead with
      ⟨last, hRuns, hLast⟩
    refine ⟨last, hRuns, hLast, ?_⟩
    intro arguments hAsks
    refine ⟨?_, ?_, ?_⟩
    · have hSigned := readPayload_of_readEnvelope hLast
      exact run_canonicalize_of_read hAsks hSigned hPayload
    · have hSigned := readPayload_of_readEnvelope hRead
      exact run_canonicalize_of_read hAsks hSigned hPayload
    · intro hValue plain hPlain
      exact run_canonicalize_of_read hPlain hValue hPayload

/- A sequence of a wide integer and a control character. -/
def wideText : String :=
  "[18446744073709551616,\"\\u0001\"]"

/- The value of the text. -/
def wideValue : Value :=
  .sequence [.integer 18446744073709551616, .string "\x01"]

/- A signature whose method is to be escaped. -/
def wideSignature : Signature :=
  ⟨⟨"aB", by decide⟩, "\"\\\n=", ⟨"01", by decide⟩⟩

/- The same signature is appended twice. -/
theorem sign_append_keeps_signed_text_twice :
    ∃ last,
      Runs (.piped wideText)
          [signAppendArguments ⟨3, 100⟩ wideSignature,
            signAppendArguments ⟨3, 100⟩ wideSignature]
          wideText last ∧
        readEnvelope (.piped last) ⟨3, 100⟩ none =
          .ok ⟨wideValue, [wideSignature, wideSignature]⟩ ∧
        run (.piped last)
            ["canonicalize", "--signed", "--max-depth", "3",
              "--max-bytes", "100"] =
          ⟨0, "[18446744073709551616,\"\x01\"]", ""⟩ := by
  have hRead :
      readEnvelope ((Environment.piped wideText).withInput
          wideText) ⟨3, 100⟩ none =
        .ok ⟨wideValue, []⟩ := by
    decide +kernel
  have hAvoids : wideValue.Avoids literalKey :=
    ⟨trivial, trivial, trivial⟩
  have hRoom : max (wideValue.depth + 1) 3 ≤ min 3 127 := by
    decide
  have hMethods :
      ∀ signature ∈ [wideSignature, wideSignature],
        '-' ∉ signature.method.toList.head? := by
    decide
  have hAsks :
      Asks ⟨3, 100⟩ (.canonicalize true)
        ["canonicalize", "--signed", "--max-depth", "3",
          "--max-bytes", "100"] := by
    unfold Asks
    decide +kernel
  rcases
      sign_append_keeps_signed_text hRead hAvoids hRoom
        (by decide) (by decide) hMethods with
    ⟨hLine, hRuns⟩
  have hFirst := hLine wideSignature List.mem_cons_self
  rcases hRuns _ (.cons hFirst (.cons hFirst .nil)) with
    ⟨last, hLast, hEnvelope, hOutcome⟩
  refine ⟨last, hLast, hEnvelope, ?_⟩
  have hCanonical := (hOutcome _ hAsks).1
  have hPrinted :
      canonicalOutcome ⟨3, 100⟩ wideValue =
        ⟨0, "[18446744073709551616,\"\x01\"]", ""⟩ := by
    decide +kernel
  rw [hPrinted] at hCanonical
  exact hCanonical

end CommandLine

end SignedMetadata
