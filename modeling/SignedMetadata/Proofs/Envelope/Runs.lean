import SignedMetadata.Proofs.Envelope.Data
import SignedMetadata.Proofs.Envelope.Texts
import SignedMetadata.Proofs.Json.Nesting
import SignedMetadata.Proofs.Reading.Direct

/-
  Runs of steps that rebuild an envelope and sign it.

  An envelope is rebuilt from its value, or from its compact
  or indented text.  A rebuilt envelope is the same, as long
  as its text can be read: its payload must leave room for
  the envelope around it, and must not begin with a passed
  literal.  So in any run of such steps and of signatures,
  only the signatures grow, at their end.

  Main declarations:
    * `Obtained`
    * `Step.perform`
    * `Kept`
    * `run_append_only`
-/

namespace SignedMetadata

namespace Envelope

open Json (Tree)

------------------------------------------------------------
-- Printed Envelopes
------------------------------------------------------------

/- What must hold of a payload for its text to be read. -/
structure Kept (v : Value) : Prop where
  wellFormed : v.WellFormed
  plain : v.NotFirst literalKey
  room : v.depth + 1 ≤ Json.maxOpen

variable {envelope : Envelope}
variable {text : String}

/- Every spelling of the envelope's tokens is read as it. -/
theorem ofText_of_spelledTokens
    (hKept : Kept envelope.signed)
    (hText :
      Json.SpelledTokens envelope.toJson.tree.tokens
        text.toList) :
    ofText text = .ok envelope := by
  have hHolds := envelope.holds_toJson
  have hPlain := plain_toJson hKept.plain
  have hWell := wellFormed_toValue_iff.mpr hKept.wellFormed
  have hDepth : envelope.toJson.tree.depth ≤ Json.maxOpen := by
    have hRoom := hKept.room
    rw [Tree.depth_of_holds _ hHolds, depth_toValue]
    rw [Json.maxOpen] at hRoom ⊢
    split_ifs <;> omega
  have hDocument :=
    Tree.ofText_of_writtenTokens
      (Tree.complete_of_holds _ hHolds) hDepth hText.written
  have hValue : Value.ofText text = .ok envelope.toValue := by
    rw [Value.ofText_eq_ok_iff, hDocument]
    exact ⟨rfl, Value.ofTree_of_holds hHolds hWell hPlain⟩
  exact
    ofText_eq_ok_iff.mpr ⟨_, hValue, form_toValue envelope⟩

/- An envelope is read from its compact text. -/
theorem ofText_compact (hKept : Kept envelope.signed) :
    ofText envelope.toJson.compact = .ok envelope := by
  exact
    ofText_of_spelledTokens hKept
      (Json.spelledTokens_compact _ envelope.holds_toJson)

/- An envelope is read from its indented text. -/
theorem ofText_pretty (hKept : Kept envelope.signed) :
    ofText envelope.toJson.pretty = .ok envelope := by
  exact
    ofText_of_spelledTokens hKept
      (Json.spelledTokens_prettyAt _ 0 envelope.holds_toJson)

------------------------------------------------------------
-- Obtained Envelopes
------------------------------------------------------------

/- The ways to come by an envelope. -/
inductive Obtained : Envelope → Prop where
| new
    {payload : Value} (hWell : payload.WellFormed) :
    Obtained (new payload)
| wrap
    {payload : Value} {envelope : Envelope}
    (hWell : payload.WellFormed)
    (hWrap : wrap payload = .ok envelope) :
    Obtained envelope
| ofValue
    {v : Value} {envelope : Envelope}
    (hWell : v.WellFormed)
    (hRead : ofValue v = .ok envelope) :
    Obtained envelope
| ofText
    {text : String} {envelope : Envelope}
    (hText : ofText text = .ok envelope) :
    Obtained envelope

/- The payload of a form is as well formed as the form. -/
theorem Form.wellFormed_signed
    {v : Value}
    (hForm : envelope.Form v)
    (hWell : v.WellFormed) :
    envelope.signed.WellFormed := by
  rcases hForm with ⟨records, _, rfl | rfl⟩
  · exact hWell.2.2.1
  · exact hWell.1

/- Every payload that is obtained is well formed. -/
theorem Obtained.wellFormed (hObtained : Obtained envelope) :
    envelope.signed.WellFormed := by
  cases hObtained with
  | new hWell => exact hWell
  | wrap hWell hWrap =>
      exact wellFormed_signed_of_wrap hWell hWrap
  | ofValue hWell hRead =>
      rw [← wellFormed_toValue_iff,
        toValue_of_ofValue hWell hRead]
      exact hWell
  | ofText hText =>
      rcases ofText_eq_ok_iff.mp hText with
        ⟨v, hValue, hForm⟩
      exact
        hForm.wellFormed_signed
          (Value.wellFormed_of_ofText hValue)

------------------------------------------------------------
-- Steps
------------------------------------------------------------

/- The envelope with some more signatures at the end. -/
def extend
    (envelope : Envelope)
    (signatures : List Signature) : Envelope where
  signed := envelope.signed
  signatures := envelope.signatures ++ signatures

/- An envelope without more signatures is the same. -/
theorem extend_nil (envelope : Envelope) :
    extend envelope [] = envelope := by
  rw [extend, List.append_nil]

/- More signatures may be added in several steps. -/
theorem extend_extend
    (envelope : Envelope)
    (first second : List Signature) :
    extend (extend envelope first) second =
      extend envelope (first ++ second) := by
  rw [extend, extend, extend, List.append_assoc]

/- What may be done to an envelope. -/
inductive Step where
| append (signature : Signature)
| rewrap
| reread
| compact
| pretty
deriving DecidableEq, Repr

namespace Step

/- The envelope after a step, unless it fails. -/
def perform
    (envelope : Envelope) : Step → Option Envelope
| .append signature => some (envelope.append signature)
| .rewrap => (wrap envelope.toValue).toOption
| .reread => (ofValue envelope.toValue).toOption
| .compact => (ofText envelope.toJson.compact).toOption
| .pretty => (ofText envelope.toJson.pretty).toOption

/- The signatures that a step adds. -/
def added : Step → List Signature
| .append signature => [signature]
| _ => []

/- A step does nothing but add its signatures. -/
theorem perform_eq_some
    (hKept : Kept envelope.signed)
    (step : Step) :
    perform envelope step =
      some (extend envelope step.added) := by
  cases step with
  | append signature => rfl
  | rewrap =>
      change (wrap envelope.toValue).toOption = _
      rw [wrap_toValue]
      exact congrArg some (extend_nil envelope).symm
  | reread =>
      change (ofValue envelope.toValue).toOption = _
      rw [ofValue_toValue]
      exact congrArg some (extend_nil envelope).symm
  | compact =>
      change (ofText envelope.toJson.compact).toOption = _
      rw [ofText_compact hKept]
      exact congrArg some (extend_nil envelope).symm
  | pretty =>
      change (ofText envelope.toJson.pretty).toOption = _
      rw [ofText_pretty hKept]
      exact congrArg some (extend_nil envelope).symm

/- A run does nothing but add the signatures of its steps. -/
theorem foldlM_perform_eq_some
    (hKept : Kept envelope.signed)
    (steps : List Step) :
    steps.foldlM perform envelope =
      some (extend envelope (steps.flatMap added)) := by
  induction steps generalizing envelope with
  | nil => exact congrArg some (extend_nil envelope).symm
  | cons step steps ih =>
      have hNext : Kept (extend envelope step.added).signed :=
        hKept
      rw [List.foldlM_cons, perform_eq_some hKept]
      change steps.foldlM perform _ = _
      rw [ih hNext, extend_extend, List.flatMap_cons]

end Step

------------------------------------------------------------
-- Runs
------------------------------------------------------------

/- The text is one or more ASCII hex digits. -/
def IsHexDigits (text : String) : Prop :=
  text ≠ "" ∧
    ∀ c ∈ text.toList,
      '0' ≤ c ∧ c ≤ '9' ∨ 'a' ≤ c ∧ c ≤ 'f' ∨
        'A' ≤ c ∧ c ≤ 'F'

/- Hex texts are hex digits. -/
theorem isHexDigits_text (hex : HexText) :
    IsHexDigits hex.text := by
  have hHex := hex.isHex
  rw [Text.isHex, Bool.and_eq_true, List.all_eq_true]
    at hHex
  refine ⟨?_, ?_⟩
  · intro hEmpty
    rw [hEmpty] at hHex
    exact absurd hHex.1 (by decide)
  · intro c hc
    have hDigit := hHex.2 c hc
    rw [Text.isHexDigit, Text.hexDigit?] at hDigit
    split_ifs at hDigit with hNumber hLower hUpper
    · exact Or.inl hNumber
    · exact Or.inr (Or.inl hLower)
    · exact Or.inr (Or.inr hUpper)
    · cases hDigit

/-
  Whatever is done to an envelope, nothing fails, the payload
  and the text that is signed stay the same, and signatures
  are only added, at the end and in order.
-/
theorem run_append_only
    (hObtained : Obtained envelope)
    (hDepth : envelope.signed.depth ≤ 126)
    (hAvoids : envelope.signed.Avoids literalKey)
    (steps : List Step) :
    ∃ last,
      steps.foldlM Step.perform envelope = some last ∧
        last.signed = envelope.signed ∧
          (∀ limits,
            last.signedText limits =
              envelope.signedText limits) ∧
            last.signatures =
                envelope.signatures ++
                  steps.flatMap Step.added ∧
              ∀ signature ∈ last.signatures,
                IsHexDigits signature.keyId.text ∧
                  IsHexDigits signature.sig.text := by
  have hKept : Kept envelope.signed := by
    exact
      ⟨hObtained.wellFormed,
        Value.notFirst_of_avoids _ hAvoids,
        Nat.succ_le_succ hDepth⟩
  refine
    ⟨_, Step.foldlM_perform_eq_some hKept steps, rfl, ?_, rfl,
      ?_⟩
  · intro limits
    rfl
  · intro signature _
    exact
      ⟨isHexDigits_text signature.keyId,
        isHexDigits_text signature.sig⟩

/- Signing twice, with every way to rebuild in between. -/
def mixedSteps : List Step :=
  [.append shortRecord, .compact, .rewrap,
    .append shortRecord, .pretty, .reread]

/- A payload that is signed twice has both signatures. -/
theorem run_append_only_mixed :
    ∃ last,
      mixedSteps.foldlM Step.perform
          (new (.mapping [("a", .integer (-5))])) =
        some last ∧
        last.signed = .mapping [("a", .integer (-5))] ∧
          last.signatures = [shortRecord, shortRecord] := by
  have hRange : Value.InRange (-5) := by decide
  have hWell :
      (Value.mapping [("a", .integer (-5))]).WellFormed :=
    ⟨by decide, hRange, trivial⟩
  have hAvoids :
      (Value.mapping [("a", .integer (-5))]).Avoids
        literalKey :=
    ⟨by decide, trivial, trivial⟩
  have hDepth :
      (Value.mapping [("a", .integer (-5))]).depth ≤ 126 := by
    decide
  rcases run_append_only (.new hWell) hDepth hAvoids
      mixedSteps with
    ⟨last, hRun, hSigned, _, hSignatures, _⟩
  exact ⟨last, hRun, hSigned, hSignatures⟩

end Envelope

end SignedMetadata
