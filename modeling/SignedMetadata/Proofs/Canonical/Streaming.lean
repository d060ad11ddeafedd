import SignedMetadata.Proofs.Canonical.Cuts
import SignedMetadata.Proofs.Canonical.Delimiting

/-
  Streaming stops at the first refusal.

  A sink that is offered texts one after another takes all of
  them, or takes those before the first that it refuses.  The
  fragments of a canonical text are offered in this way to
  every sink, whatever its state and its refusals, and none
  of them is empty.  Which texts a sink is offered is seen
  through `Sink.logged`, a sink that notes every text before
  it passes it on.

  Main declarations:
    * `Sink.Takes`
    * `Sink.Offered`
    * `Sink.offered_forM`
    * `nonempty_of_mem_fragments`
    * `encodeTo_stops_at_refusal`
-/

namespace SignedMetadata

------------------------------------------------------------
-- Offering Texts
------------------------------------------------------------

namespace Sink

variable {σ : Type}

/- The sink takes the texts in order, between two states. -/
inductive Takes (sink : Sink σ) :
    List String → σ → σ → Prop where
| nil (s : σ) : Takes sink [] s s
| cons
    {text : String} {texts : List String} {s s' s'' : σ}
    (hHead : (sink text).run s = (.ok (), s'))
    (hRest : Takes sink texts s' s'') :
    Takes sink (text :: texts) s s''

/-
  A sink that notes every text that it is offered, also one
  that is refused.
-/
def logged (sink : Sink σ) : Sink (σ × List String) :=
  fun text =>
    ExceptT.mk fun (s, offered) =>
      let (outcome, s') := (sink text).run s
      (outcome, (s', offered ++ [text]))

/-
  How offering texts in order ends, for a sink in a state:
  with the outcome, the last state, and the texts that were
  offered.
-/
inductive Offered (sink : Sink σ) (texts : List String) (s : σ) :
    Except SinkError Unit → σ → List String → Prop where
| taken
    {s' : σ}
    (hTakes : Takes sink texts s s') :
    Offered sink texts s (.ok ()) s' texts
| refused
    {taken rest : List String} {text : String}
    {cause : SinkError} {s' s'' : σ}
    (hTexts : texts = taken ++ text :: rest)
    (hTakes : Takes sink taken s s')
    (hRefusal : (sink text).run s' = (.error cause, s'')) :
    Offered sink texts s (.error cause) s''
      (taken ++ [text])

variable {sink : Sink σ}
variable {text : String}
variable {texts offered : List String}
variable {s s' s'' : σ}
variable {outcome : Except SinkError Unit}

/- A text that is taken comes before all others. -/
theorem Offered.cons
    (hHead : (sink text).run s = (.ok (), s'))
    (hRest : Offered sink texts s' outcome s'' offered) :
    Offered sink (text :: texts) s outcome s''
      (text :: offered) := by
  cases hRest with
  | taken hTakes =>
      exact .taken (.cons hHead hTakes)
  | refused hTexts hTakes hRefusal =>
      rw [hTexts]
      exact .refused rfl (.cons hHead hTakes) hRefusal

/- The other texts are offered after one that is taken. -/
theorem forM_cons_of_taken
    (hHead : (sink text).run s = (.ok (), s')) :
    ((text :: texts).forM sink).run s =
      (texts.forM sink).run s' := by
  have hFirst :
      StateT.run (ExceptT.run (sink text)) s =
        (.ok (), s') :=
    hHead
  change
    StateT.run (ExceptT.run (forM (text :: texts) sink)) s =
      _
  rw [List.forM_cons, ExceptT.run_bind, StateT.run_bind,
    hFirst]
  rfl

/- No text is offered after one that is refused. -/
theorem forM_cons_of_refused
    {cause : SinkError}
    (hHead : (sink text).run s = (.error cause, s')) :
    ((text :: texts).forM sink).run s =
      (.error cause, s') := by
  have hFirst :
      StateT.run (ExceptT.run (sink text)) s =
        (.error cause, s') :=
    hHead
  change
    StateT.run (ExceptT.run (forM (text :: texts) sink)) s =
      _
  rw [List.forM_cons, ExceptT.run_bind, StateT.run_bind,
    hFirst]
  rfl

/- Texts are offered up to the first that is refused. -/
theorem offered_forM
    (sink : Sink σ)
    (texts : List String)
    (s : σ) :
    ∃ outcome s' offered,
      Offered sink texts s outcome s' offered ∧
        (texts.forM sink).run s = (outcome, s') ∧
        ∀ noted,
          (texts.forM sink.logged).run (s, noted) =
            (outcome, (s', noted ++ offered)) := by
  induction texts generalizing s with
  | nil =>
      refine ⟨.ok (), s, [], .taken (.nil s), rfl, ?_⟩
      intro noted
      rw [List.append_nil]
      rfl
  | cons text texts ih =>
      have hLogged :
          ∀ noted,
            (sink.logged text).run (s, noted) =
              (((sink text).run s).1,
                (((sink text).run s).2, noted ++ [text])) :=
        fun _ => rfl
      rcases hText : (sink text).run s with ⟨cause | ⟨⟩, s'⟩
      · rw [hText] at hLogged
        refine
          ⟨.error cause, s', [text],
            .refused rfl (.nil s) hText,
            forM_cons_of_refused hText, ?_⟩
        intro noted
        exact forM_cons_of_refused (hLogged noted)
      · rw [hText] at hLogged
        rcases ih s' with
          ⟨outcome, s'', offered, hOffered, hRun, hNoted⟩
        refine
          ⟨outcome, s'', text :: offered,
            hOffered.cons hText, ?_, ?_⟩
        · rw [forM_cons_of_taken hText, hRun]
        · intro noted
          rw [forM_cons_of_taken (hLogged noted), hNoted,
            List.append_assoc, List.singleton_append]

end Sink

------------------------------------------------------------
-- Fragments
------------------------------------------------------------

namespace Canonical

/- A run of characters has no empty fragment. -/
theorem nonempty_of_mem_runFragments
    {run : List Char}
    {text : String}
    (hText : text ∈ runFragments run) :
    text ≠ "" := by
  cases run with
  | nil => simp [runFragments] at hText
  | cons c cs =>
      rw [runFragments, List.mem_singleton] at hText
      rw [hText]
      intro hEmpty
      have hLength := congrArg String.length hEmpty
      simp at hLength

/- The body of a string has no empty fragment. -/
theorem nonempty_of_mem_bodyFragments
    {run cs : List Char}
    {text : String}
    (hText : text ∈ bodyFragments run cs) :
    text ≠ "" := by
  induction cs generalizing run with
  | nil => exact nonempty_of_mem_runFragments hText
  | cons c cs ih =>
      by_cases hEscaped : isEscaped c = true
      · rw [bodyFragments, if_pos hEscaped,
          List.mem_append, List.mem_cons] at hText
        rcases hText with hRun | rfl | hRest
        · exact nonempty_of_mem_runFragments hRun
        · decide
        · exact ih hRest
      · rw [bodyFragments, if_neg hEscaped] at hText
        exact ih hText

/- A string has no empty fragment. -/
theorem nonempty_of_mem_stringFragments
    {s text : String}
    (hText : text ∈ stringFragments s) :
    text ≠ "" := by
  rw [stringFragments, List.cons_append, List.mem_cons,
    List.mem_append, List.mem_singleton] at hText
  rcases hText with rfl | hBody | rfl
  · decide
  · exact nonempty_of_mem_bodyFragments hBody
  · decide

/- A numeral is not empty. -/
theorem ofInteger_ne_empty (i : Int) :
    Text.ofInteger i ≠ "" := by
  rcases Text.exists_cons_ofInteger i with ⟨c, cs, hText, _⟩
  intro hEmpty
  rw [hEmpty] at hText
  cases hText

mutual

/- A value has no empty fragment. -/
theorem nonempty_of_mem_fragments
    (v : Value)
    {text : String}
    (hText : text ∈ fragments v) :
    text ≠ "" := by
  cases v with
  | null =>
      rw [fragments, List.mem_singleton] at hText
      rw [hText]
      decide
  | bool b =>
      cases b <;>
      · rw [fragments, List.mem_singleton] at hText
        rw [hText]
        decide
  | integer i =>
      rw [fragments, List.mem_singleton] at hText
      rw [hText]
      exact ofInteger_ne_empty i
  | string s => exact nonempty_of_mem_stringFragments hText
  | sequence items =>
      rw [fragments, List.cons_append, List.mem_cons,
        List.mem_append, List.mem_singleton] at hText
      rcases hText with rfl | hItems | rfl
      · decide
      · exact
          nonempty_of_mem_itemFragments items (by simp) hItems
      · decide
  | mapping members =>
      rw [fragments, List.cons_append, List.mem_cons,
        List.mem_append, List.mem_singleton] at hText
      rcases hText with rfl | hMembers | rfl
      · decide
      · exact
          nonempty_of_mem_memberFragments members (by simp)
            hMembers
      · decide

/- Elements have no empty fragment if their lead has none. -/
theorem nonempty_of_mem_itemFragments
    {lead : List String}
    (vs : List Value)
    {text : String}
    (hLead : "" ∉ lead)
    (hText : text ∈ itemFragments lead vs) :
    text ≠ "" := by
  cases vs with
  | nil => simp [itemFragments] at hText
  | cons v vs =>
      rw [itemFragments, List.mem_append, List.mem_append]
        at hText
      rcases hText with (hFirst | hHead) | hRest
      · exact ne_of_mem_of_not_mem hFirst hLead
      · exact nonempty_of_mem_fragments v hHead
      · exact
          nonempty_of_mem_itemFragments vs (by decide) hRest

/- Members have no empty fragment, likewise. -/
theorem nonempty_of_mem_memberFragments
    {lead : List String}
    (ms : List (String × Value))
    {text : String}
    (hLead : "" ∉ lead)
    (hText : text ∈ memberFragments lead ms) :
    text ≠ "" := by
  cases ms with
  | nil => simp [memberFragments] at hText
  | cons member ms =>
      rcases member with ⟨k, v⟩
      rw [memberFragments, List.mem_append, List.mem_append,
        List.mem_append, List.mem_cons] at hText
      rcases hText with
        ((hFirst | hKey) | (rfl | hHead)) | hRest
      · exact ne_of_mem_of_not_mem hFirst hLead
      · exact nonempty_of_mem_stringFragments hKey
      · decide
      · exact nonempty_of_mem_fragments v hHead
      · exact
          nonempty_of_mem_memberFragments ms (by decide) hRest

end

/- The bytes of fragments are the bytes of the joined text. -/
theorem flatMap_bytes (texts : List String) :
    texts.flatMap Text.bytes =
      Text.bytes (String.join texts) := by
  induction texts with
  | nil => rfl
  | cons text texts ih =>
      rw [List.flatMap_cons, ih, String.join_cons,
        Text.bytes_append]

------------------------------------------------------------
-- Streaming
------------------------------------------------------------

/- A value outside the limits never reaches the sink. -/
theorem encodeTo_of_encode_error
    {σ : Type}
    {limits : Limits}
    {v : Value}
    {cause : EncodeError}
    (hEncode : encode limits v = .error cause)
    (sink : Sink σ)
    (s : σ) :
    (encodeTo limits sink v).run s = (.error cause, s) := by
  rw [encode] at hEncode
  cases hLength : length limits v with
  | ok n =>
      rw [hLength] at hEncode
      cases hEncode
  | error fault =>
      rw [hLength] at hEncode
      cases hEncode
      rw [encodeTo, hLength]
      rfl

/- A value within the limits is offered in its fragments. -/
theorem encodeTo_of_encode_ok
    {σ : Type}
    {limits : Limits}
    {v : Value}
    {text : String}
    (hEncode : encode limits v = .ok text)
    (sink : Sink σ)
    (s : σ) :
    (encodeTo limits sink v).run s =
      ((((fragments v).forM sink).run s).1.mapError .sink,
        (((fragments v).forM sink).run s).2) := by
  rw [encode] at hEncode
  cases hLength : length limits v with
  | error fault =>
      rw [hLength] at hEncode
      cases hEncode
  | ok n =>
      rw [encodeTo, hLength, ← write_eq_forM]
      rfl

/-
  Streaming agrees with encoding.  When the limits reject the
  value, every sink stays as it was and the cause is the same.
  Otherwise there is one list of texts, none of them empty
  and each with valid bytes, which together are the bytes of
  the encoding.  Their bytes are the slices that are cut from
  the bytes of strings without a look at the characters.
  Every sink in every state is offered these texts in order,
  until it has taken them all or refuses one; the refusal is
  then the outcome.
-/
theorem encodeTo_stops_at_refusal
    (limits : Limits)
    (v : Value) :
    (∀ cause,
      encode limits v = .error cause →
        ∀ (σ : Type) (sink : Sink σ) (s : σ),
          (encodeTo limits sink v).run s =
            (.error cause, s)) ∧
      ∀ text,
        encode limits v = .ok text →
          ∃ texts : List String,
            (∀ t ∈ texts,
              Text.bytes t ≠ [] ∧
                Text.ofBytes? (Text.bytes t) = some t) ∧
              texts.map Text.bytes = cuts v ∧
              texts.flatMap Text.bytes = Text.bytes text ∧
              ∀ (σ : Type) (sink : Sink σ) (s : σ),
                ∃ outcome s' offered,
                  Sink.Offered sink texts s outcome s'
                      offered ∧
                    (encodeTo limits sink v).run s =
                      (outcome.mapError .sink, s') ∧
                    (encodeTo limits sink.logged v).run
                        (s, []) =
                      (outcome.mapError .sink,
                        (s', offered)) := by
  constructor
  · intro cause hEncode σ sink s
    exact encodeTo_of_encode_error hEncode sink s
  · intro text hEncode
    refine ⟨fragments v, ?_, (cuts_eq v).symm, ?_, ?_⟩
    · intro t ht
      refine ⟨?_, Text.ofBytes?_bytes t⟩
      intro hEmpty
      have hText : t = "" := by
        rw [← Text.bytes_inj, hEmpty]
        rfl
      exact nonempty_of_mem_fragments v ht hText
    · rw [flatMap_bytes, join_fragments,
        eq_ofValue_of_encode hEncode]
    · intro σ sink s
      rcases Sink.offered_forM sink (fragments v) s with
        ⟨outcome, s', offered, hOffered, hRun, hNoted⟩
      refine ⟨outcome, s', offered, hOffered, ?_, ?_⟩
      · rw [encodeTo_of_encode_ok hEncode, hRun]
      · rw [encodeTo_of_encode_ok hEncode, hNoted,
          List.nil_append]

end Canonical

end SignedMetadata
