import SignedMetadata.Proofs.CommandLine.Canonicalize
import SignedMetadata.Proofs.Digest.Values

/-
  The command that prints digests.

  What is digested are the bytes that the command for the
  canonical text prints, with the same limits and the same
  choice of the payload.  When that command fails, this one
  fails in the same way.

  Main declarations:
    * `digest_eq`
    * `digests_cover_canonical_text`
-/

namespace SignedMetadata

namespace CommandLine

variable {environment : Environment}
variable {limits : Limits}
variable {input : Option String}

/- The command prints the digest of what it encodes. -/
theorem digest_eq
    (algorithm : HashAlgorithm)
    (signedOnly : Bool) :
    digest environment limits input algorithm signedOnly =
      .ofExcept .input
        (readPayload environment limits input signedOnly)
        fun v =>
          .ofExcept .canonicalization
            (Canonical.encode limits v) fun text =>
              .success
                (Digest.ofText algorithm text ++ "\n") := by
  unfold digest
  congr
  funext v
  rw [Digest.ofValue_eq]
  cases Canonical.encode limits v <;> rfl

/- It ends as the command for the canonical text does. -/
theorem run_digest
    {hashing printing : List String}
    {algorithm : HashAlgorithm}
    {signedOnly : Bool}
    (hHashing :
      Request.parse? hashing =
        some
          (.run
            ⟨limits, input, .digest algorithm signedOnly⟩))
    (hPrinting :
      Request.parse? printing =
        some
          (.run ⟨limits, input, .canonicalize signedOnly⟩)) :
    ((run environment printing).code = 0 ∧
      run environment hashing =
        ⟨0,
          Digest.ofText algorithm
              (run environment printing).output ++ "\n",
          ""⟩) ∨
      (run environment printing).code = 1 ∧
        run environment hashing =
          run environment printing := by
  have hRun :
      run environment hashing =
        (digest environment limits input algorithm
          signedOnly).outcome := by
    rw [run, hHashing]
    rfl
  rw [run_canonicalize_payload hPrinting, hRun, digest_eq]
  cases readPayload environment limits input signedOnly with
  | error cause => exact Or.inr ⟨rfl, rfl⟩
  | ok v =>
      dsimp only [Result.ofExcept]
      cases Canonical.encode limits v with
      | error cause => exact Or.inr ⟨rfl, rfl⟩
      | ok text => exact Or.inl ⟨rfl, rfl⟩

/-
  Digests cover exactly the canonical text.  The digest of a
  text is the hash of its bytes in lowercase hex.  That of a
  value is that of its encoding as a whole, and fails exactly
  as encoding does.  A table has one entry for each of the
  algorithms that are asked for, whatever their order and
  however often they are named, with this digest, and fails
  exactly as encoding does if there are any.  The command for
  digests prints the digest of what the command for canonical
  text prints, and ends in the same way when that one fails.
-/
theorem digests_cover_canonical_text :
    (∀ (algorithm : HashAlgorithm) (text : String),
      Text.WritesHex (algorithm.hash (Text.bytes text))
        (Digest.ofText algorithm text).toList) ∧
      (∀ (algorithm : HashAlgorithm) (limits : Limits)
          (v : Value),
        (∀ cause,
          Digest.ofValue algorithm limits v = .error cause ↔
            Canonical.encode limits v = .error cause) ∧
          ∀ text,
            Canonical.encode limits v = .ok text →
              Digest.ofValue algorithm limits v =
                .ok (Digest.ofText algorithm text)) ∧
      (∀ (limits : Limits) (v : Value)
          (algorithms : List HashAlgorithm),
        (∀ text,
          Canonical.encode limits v = .ok text →
            Digest.table limits v algorithms =
              .ok (Digest.entries text algorithms)) ∧
          (algorithms ≠ [] →
            ∀ cause,
              Digest.table limits v algorithms =
                  .error cause ↔
                Canonical.encode limits v =
                  .error cause)) ∧
        ∀ (environment : Environment) (limits : Limits)
            (input : Option String)
            (algorithm : HashAlgorithm) (signedOnly : Bool)
            (hashing printing : List String),
          Request.parse? hashing =
              some
                (.run
                  ⟨limits, input,
                    .digest algorithm signedOnly⟩) →
            Request.parse? printing =
                some
                  (.run
                    ⟨limits, input,
                      .canonicalize signedOnly⟩) →
              ((run environment printing).code = 0 ∧
                run environment hashing =
                  ⟨0,
                    Digest.ofText algorithm
                        (run environment printing).output ++
                      "\n",
                    ""⟩) ∨
                (run environment printing).code = 1 ∧
                  run environment hashing =
                    run environment printing := by
  refine ⟨Digest.writesHex_ofText, ?_, ?_, ?_⟩
  · intro algorithm limits v
    rw [Digest.ofValue_eq]
    cases Canonical.encode limits v with
    | error fault => simp [Except.map]
    | ok text => simp [Except.map]
  · intro limits v algorithms
    cases hEncode : Canonical.encode limits v with
    | error fault =>
        refine ⟨by simp, ?_⟩
        intro hSome cause
        rw [Digest.table_of_encode_error hEncode hSome,
          Except.error.injEq, Except.error.injEq]
    | ok text =>
        have hTable :=
          Digest.table_of_encode_ok hEncode algorithms
        refine ⟨?_, ?_⟩
        · rintro _ ⟨⟩
          exact hTable
        · intro _ cause
          simp [hTable]
  · intro environment limits input algorithm signedOnly
      hashing printing hHashing hPrinting
    exact run_digest hHashing hPrinting

/- An envelope around a sequence. -/
def enveloped : String :=
  "\x7b\"signatures\":[], \"signed\":[ 1]\x7d"

/- The digest of the payload under the common algorithm. -/
def payloadDigest : String :=
  "080a9ed428559ef602668b4c00f114f1" ++
    "a11c3f6b02a435f0bdc154578e4d7f22"

/- The digest of nothing under the longest algorithm. -/
def nullDigest : String :=
  "04f8ff2682604862e405bf88de102ed7" ++
    "710ac45c1205957625e4ee3e5f5a2241" ++
    "e453614acc451345b91bafc88f388040" ++
    "19c7492444595674e94e8cf4be53817f"

/- The digest of a payload, and a table with repetitions. -/
theorem digests_cover_canonical_text_signed :
    run (.piped enveloped) ["digest", "--signed"] =
        ⟨0, Digest.ofText .sha256 "[1]" ++ "\n", ""⟩ ∧
      Digest.ofText .sha256 "[1]" = payloadDigest ∧
      Digest.ofValue .sha384 .standard .null =
        .ok (Digest.ofText .sha384 "null") ∧
      Digest.table .standard .null
          [.sha512, .sha224, .sha512] =
        .ok
          [("sha224", Digest.ofText .sha224 "null"),
            ("sha512", Digest.ofText .sha512 "null")] ∧
      Digest.ofText .sha512 "null" = nullDigest ∧
      Digest.table ⟨0, 3⟩ .null [.sha512] =
        .error (.tooLarge 3) := by
  have hOne :
      Canonical.encode .standard (.sequence [.integer 1]) =
        .ok "[1]" := by
    decide +kernel
  have hNull :
      Canonical.encode .standard .null = .ok "null" := by
    decide +kernel
  have hTight :
      Canonical.encode ⟨0, 3⟩ .null =
        .error (.tooLarge 3) := by
    decide +kernel
  have hOneDigest :
      Digest.ofValue .sha256 .standard
          (.sequence [.integer 1]) =
        .ok payloadDigest := by
    decide +kernel
  have hNullDigest :
      Digest.ofValue .sha512 .standard .null =
        .ok nullDigest := by
    decide +kernel
  have hHashing :
      Request.parse? ["digest", "--signed"] =
        some
          (.run ⟨.standard, none, .digest .sha256 true⟩) := by
    decide +kernel
  have hPrinting :
      Request.parse? ["canonicalize", "--signed"] =
        some (.run ⟨.standard, none, .canonicalize true⟩) := by
    decide +kernel
  have hPrints :
      run (.piped enveloped) ["canonicalize", "--signed"] =
        ⟨0, "[1]", ""⟩ := by
    decide +kernel
  rcases digests_cover_canonical_text with
    ⟨_, hDigest, hTable, hCommand⟩
  refine ⟨?_, ?_, (hDigest .sha384 _ _).2 _ hNull, ?_, ?_, ?_⟩
  · rcases hCommand (.piped enveloped) _ _ _ _ _ _ hHashing
        hPrinting with
      ⟨_, hRun⟩ | ⟨hCode, _⟩
    · rw [hRun, hPrints]
    · rw [hPrints] at hCode
      cases hCode
  · rw [(hDigest .sha256 _ _).2 _ hOne] at hOneDigest
    exact Except.ok.inj hOneDigest
  · exact (hTable _ _ _).1 _ hNull
  · rw [(hDigest .sha512 _ _).2 _ hNull] at hNullDigest
    exact Except.ok.inj hNullDigest
  · exact ((hTable _ _ _).2 (by decide) _).mpr hTight

end CommandLine

end SignedMetadata
