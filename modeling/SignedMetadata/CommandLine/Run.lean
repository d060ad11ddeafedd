import SignedMetadata.CommandLine.Input
import SignedMetadata.CommandLine.Invocation
import SignedMetadata.CommandLine.Report

/-
  Running commands.

  A command either prints its result and ends with code 0, or
  reports one failure and ends with code 1.  Only a strict
  check prints its report before it fails, when the metadata
  has expired.  Arguments that are no command line end with
  code 2.
-/

namespace SignedMetadata

namespace CommandLine

------------------------------------------------------------
-- Failures
------------------------------------------------------------

/- Why a command failed. -/
inductive Failure where
| input (cause : InputError)
| canonicalization (cause : EncodeError)
| signature (cause : NotAllowed)
| metadata (cause : ShapeError)
| expiry (cause : ShapeError)
| expired (role : Role) (expires : DateTime)
deriving DecidableEq, Repr

/- The wording of a failure. -/
def Failure.message : Failure → String
| .input cause => cause.message
| .canonicalization cause =>
    "Canonicalization failed: " ++ cause.message
| .signature cause => "Invalid signature: " ++ cause.message
| .metadata cause => "Invalid metadata: " ++ cause.message
| .expiry cause => cause.message
| .expired role expires =>
    role.typeName ++ " metadata expired at " ++ expires.spoken

------------------------------------------------------------
-- Commands
------------------------------------------------------------

/- What a command prints, and how it ends. -/
structure Result where
  printed : String
  failure : Option Failure

namespace Result

/- A command that printed its result. -/
def success (printed : String) : Result :=
  ⟨printed, none⟩

/- A command that failed before it printed anything. -/
def failed (failure : Failure) : Result :=
  ⟨"", some failure⟩

/- Go on with what was computed, or fail. -/
def ofExcept
    {ε α : Type}
    (fail : ε → Failure)
    (computed : Except ε α)
    (next : α → Result) : Result :=
  match computed with
  | .ok a => next a
  | .error cause => failed (fail cause)

end Result

variable (environment : Environment)

/- Print the canonical text of the input as it is written. -/
def canonicalize
    (limits : Limits)
    (input : Option String)
    (signedOnly : Bool) : Result :=
  .ofExcept .input
    (readPayload environment limits input signedOnly)
    fun value =>
      match
          (Canonical.encodeTo limits Sink.collector value).run
            "" with
      | (.ok (), printed) => .success printed
      | (.error cause, printed) =>
          ⟨printed, some (.canonicalization cause)⟩

/- Print the digest of the canonical text of the input. -/
def digest
    (limits : Limits)
    (input : Option String)
    (algorithm : HashAlgorithm)
    (signedOnly : Bool) : Result :=
  .ofExcept .input
    (readPayload environment limits input signedOnly)
    fun value =>
      .ofExcept .canonicalization
        (Digest.ofValue algorithm limits value)
        fun text => .success (text ++ "\n")

/- An envelope as it is printed. -/
def printed (envelope : Envelope) : String :=
  envelope.toJson.pretty ++ "\n"

/- Print the envelope of the input. -/
def wrap
    (limits : Limits)
    (input : Option String) : Result :=
  .ofExcept .input (readEnvelope environment limits input)
    fun envelope => .success (printed envelope)

/- Print the envelope of the input with one more signature. -/
def signAppend
    (limits : Limits)
    (input : Option String)
    (keyId method sig : String) : Result :=
  .ofExcept .signature (Signature.parse keyId method sig)
    fun signature =>
      .ofExcept .input (readEnvelope environment limits input)
        fun envelope =>
          .success (printed (envelope.append signature))

/- Print a report, and fail if it must not be expired. -/
def reportOn
    (payload : Value)
    (role : Role)
    (signatures : Option Nat)
    (strict json : Bool) : Result :=
  .ofExcept .expiry (Expiry.ofPayload payload) fun expires =>
    let report : Report :=
      { role := role
        expires := expires
        expired := Expiry.hasPassed expires environment.now
        signatures := signatures }
    ⟨report.render json,
      if strict && report.expired then
        some (.expired role expires)
      else
        none⟩

/- Check the metadata of the input and report on it. -/
def check
    (limits : Limits)
    (input : Option String)
    (role : Option Role)
    (signable strict json : Bool) : Result :=
  if signable then
    .ofExcept .input (readEnvelope environment limits input)
      fun envelope =>
        .ofExcept .metadata (envelope.checkRole role)
          fun role =>
            reportOn environment envelope.signed role
              (some envelope.signatures.length) strict json
  else
    .ofExcept .input (readValue environment limits input)
      fun payload =>
        .ofExcept .metadata (Role.checkExpected role payload)
          fun role =>
            reportOn environment payload role none strict json

/- Run a command. -/
def Invocation.run (invocation : Invocation) : Result :=
  let limits := invocation.limits
  let input := invocation.input
  match invocation.command with
  | .canonicalize signedOnly =>
      canonicalize environment limits input signedOnly
  | .digest algorithm signedOnly =>
      digest environment limits input algorithm signedOnly
  | .wrap => wrap environment limits input
  | .signAppend keyId method sig =>
      signAppend environment limits input keyId method sig
  | .check role signable strict json =>
      check environment limits input role signable strict json

------------------------------------------------------------
-- Outcomes
------------------------------------------------------------

/- The exit code and what was written. -/
structure Outcome where
  code : Nat
  output : String
  errors : String
deriving DecidableEq, Repr

/- The outcome of a command. -/
def Result.outcome (result : Result) : Outcome :=
  match result.failure with
  | none => ⟨0, result.printed, ""⟩
  | some failure =>
      ⟨1, result.printed, "Error: " ++ failure.message ++ "\n"⟩

/- How the program is called. -/
def usage : String :=
  "usage: [--max-depth N] [--max-bytes N] COMMAND [INPUT]\n" ++
    "commands: canonicalize [--signed]\n" ++
    "          digest [--alg NAME] [--signed]\n" ++
    "          wrap\n" ++
    "          sign-append --keyid HEX --method TEXT " ++
    "--sig HEX\n" ++
    "          check [--role ROLE] [--signable] " ++
    "[--strict] [--json]\n"

/- The outcome of a command line. -/
def run (arguments : List String) : Outcome :=
  match Request.parse? arguments with
  | none => ⟨2, "", usage⟩
  | some .help => ⟨0, usage, ""⟩
  | some (.run invocation) =>
      (invocation.run environment).outcome

end CommandLine

end SignedMetadata
