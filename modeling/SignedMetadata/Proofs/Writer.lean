import SignedMetadata.Proofs.Canonical.Streaming
import SignedMetadata.Writer

/-
  Short writes lose and repeat nothing.

  A writer may take fewer bytes than it is offered, in every
  call another number of them, and is offered the others
  again.  However many calls that takes, and wherever they
  cut the fragments of a text, a writer that held nothing
  ends up with the bytes of the text, or with as many of them
  from the first on as it has room for.

  Main declarations:
    * `Writer.Writes`
    * `Writer.Stored`
    * `Writer.stored_of_writes`
    * `Writer.writes_writeAll`
    * `Writer.stored_forM`
    * `Writer.encodeTo_stores_first_bytes`
-/

namespace SignedMetadata

namespace Writer

open Canonical (encode encodeTo fragments)

------------------------------------------------------------
-- Repeated Calls
------------------------------------------------------------

/-
  How offering bytes ends, to a writer with a capacity that
  holds some.  A call takes at least one byte, and no more
  than are offered and have room, and the others are offered
  again; or it is interrupted, and is made again.  Only a
  writer without room takes nothing or fails.
-/
inductive Writes (capacity : Option Nat) :
    List UInt8 → List UInt8 →
      Except SinkError Unit → List UInt8 → Prop where
| done (held : List UInt8) :
    Writes capacity held [] (.ok ()) held
| taken
    {held bytes kept : List UInt8}
    {outcome : Except SinkError Unit}
    {count : Nat}
    (hSome : 0 < count)
    (hOffered : count ≤ bytes.length)
    (hRoom : ∀ c ∈ capacity, held.length + count ≤ c)
    (hRest :
      Writes capacity (held ++ bytes.take count)
        (bytes.drop count) outcome kept) :
    Writes capacity held bytes outcome kept
| interrupted
    {held bytes kept : List UInt8}
    {outcome : Except SinkError Unit}
    (hBytes : bytes ≠ [])
    (hRest : Writes capacity held bytes outcome kept) :
    Writes capacity held bytes outcome kept
| stalled
    {held bytes : List UInt8}
    {c : Nat}
    (hBytes : bytes ≠ [])
    (hCapacity : capacity = some c)
    (hFull : c ≤ held.length) :
    Writes capacity held bytes
      (.error (.failed "failed to write whole buffer")) held
| failed
    {held bytes : List UInt8}
    {c : Nat}
    (hBytes : bytes ≠ [])
    (hCapacity : capacity = some c)
    (hFull : c ≤ held.length)
    (reason : String) :
    Writes capacity held bytes (.error (.failed reason)) held

/-
  How bytes are kept: as many as there is room for, from the
  first on.  This succeeds if all of them are, and fails as a
  failed write otherwise.
-/
structure Stored
    (capacity : Option Nat)
    (bytes : List UInt8)
    (outcome : Except SinkError Unit)
    (kept : List UInt8) : Prop where
  kept_eq : kept = bytes.take (bounded bytes.length capacity)
  ok_iff :
    outcome = .ok () ↔ ∀ c ∈ capacity, bytes.length ≤ c
  error_failed :
    ∀ cause, outcome = .error cause →
      ∃ reason, cause = .failed reason

section Keeping

variable {capacity : Option Nat}
variable {held bytes kept : List UInt8}
variable {outcome : Except SinkError Unit}

/- Bytes that have room are kept. -/
theorem stored_whole
    (hFits : ∀ c ∈ capacity, bytes.length ≤ c) :
    Stored capacity bytes (.ok ()) bytes := by
  refine ⟨?_, ⟨fun _ => hFits, fun _ => rfl⟩, ?_⟩
  · cases capacity with
    | none => rw [bounded, List.take_length]
    | some c =>
        rw [bounded, Nat.min_eq_left (hFits c rfl),
          List.take_length]
  · rintro cause ⟨⟩

/- Of bytes that have no room, the first are kept. -/
theorem stored_first
    {c : Nat}
    (hCapacity : capacity = some c)
    (hShort : c < bytes.length)
    (reason : String) :
    Stored capacity bytes (.error (.failed reason))
      (bytes.take c) := by
  subst hCapacity
  refine ⟨?_, ⟨?_, ?_⟩, ?_⟩
  · rw [bounded, Nat.min_eq_right (Nat.le_of_lt hShort)]
  · rintro ⟨⟩
  · intro hFits
    exact absurd (hFits c rfl) (Nat.not_le_of_lt hShort)
  · rintro cause ⟨⟩
    exact ⟨reason, rfl⟩

/- Kept bytes are all, or the first of too many. -/
theorem Stored.cases
    (hStored : Stored capacity bytes outcome kept) :
    ((∀ c ∈ capacity, bytes.length ≤ c) ∧
      outcome = .ok () ∧ kept = bytes) ∨
      ∃ c reason,
        capacity = some c ∧ c < bytes.length ∧
          outcome = .error (.failed reason) ∧
            kept = bytes.take c := by
  rcases hStored with ⟨hKept, hOk, hError⟩
  cases outcome with
  | ok result =>
      have hFits := hOk.mp rfl
      refine Or.inl ⟨hFits, rfl, ?_⟩
      rw [hKept]
      exact (stored_whole hFits).kept_eq.symm
  | error cause =>
      rcases hError cause rfl with ⟨reason, rfl⟩
      cases capacity with
      | none => simp at hOk
      | some c =>
          have hShort : c < bytes.length := by
            simpa using hOk
          refine
            Or.inr ⟨c, reason, rfl, hShort, rfl, ?_⟩
          rw [hKept, bounded,
            Nat.min_eq_right (Nat.le_of_lt hShort)]

/- A writer without room keeps none of the bytes offered. -/
theorem stored_full
    {c : Nat}
    (hBytes : bytes ≠ [])
    (hCapacity : capacity = some c)
    (hHeld : ∀ c ∈ capacity, held.length ≤ c)
    (hFull : c ≤ held.length)
    (reason : String) :
    Stored capacity (held ++ bytes) (.error (.failed reason))
      held := by
  have hLength : held.length = c :=
    Nat.le_antisymm (hHeld c hCapacity) hFull
  have hMore := List.length_pos_iff.mpr hBytes
  have hShort : c < (held ++ bytes).length := by
    rw [List.length_append]
    omega
  have hStored := stored_first hCapacity hShort reason
  rw [List.take_left' hLength] at hStored
  exact hStored

/-
  Offered bytes are kept behind those that the writer holds,
  whatever each call takes.
-/
theorem stored_of_writes
    (hWrites : Writes capacity held bytes outcome kept)
    (hHeld : ∀ c ∈ capacity, held.length ≤ c) :
    Stored capacity (held ++ bytes) outcome kept := by
  induction hWrites with
  | done held =>
      rw [List.append_nil]
      exact stored_whole hHeld
  | @taken held bytes kept outcome count hSome hOffered hRoom
      _ ih =>
      -- What is held and offered together stays the same.
      have hTaken :
          ∀ c ∈ capacity,
            (held ++ bytes.take count).length ≤ c := by
        intro c hCapacity
        rw [List.length_append,
          List.length_take_of_le hOffered]
        exact hRoom c hCapacity
      have hStored := ih hTaken
      rw [List.append_assoc, List.take_append_drop]
        at hStored
      exact hStored
  | interrupted _ _ ih => exact ih hHeld
  | stalled hBytes hCapacity hFull =>
      exact stored_full hBytes hCapacity hHeld hFull _
  | failed hBytes hCapacity hFull reason =>
      exact stored_full hBytes hCapacity hHeld hFull reason

/- Bytes behind those that have no room are not kept. -/
theorem Stored.append_of_error
    {cause : SinkError}
    (hStored : Stored capacity bytes (.error cause) kept)
    (rest : List UInt8) :
    Stored capacity (bytes ++ rest) (.error cause) kept := by
  rcases hStored.cases with
    ⟨_, hOk, _⟩ |
      ⟨c, reason, hCapacity, hShort, hError, rfl⟩
  · cases hOk
  · have hLonger : c < (bytes ++ rest).length := by
      rw [List.length_append]
      omega
    cases hError
    have hMore := stored_first hCapacity hLonger reason
    rw [List.take_append_of_le_length (Nat.le_of_lt hShort)]
      at hMore
    exact hMore

end Keeping

------------------------------------------------------------
-- Calls of a Bounded Writer
------------------------------------------------------------

section Calls

variable {writer : Writer}
variable {held offered : Nat}

/- A bound that may be absent does not make a count grow. -/
theorem bounded_le (count : Nat) (bound : Option Nat) :
    bounded count bound ≤ count := by
  cases bound with
  | none => exact Nat.le_refl count
  | some bound => exact Nat.min_le_left count bound

/- What a call takes is offered and has room. -/
theorem room_of_accepts
    {count : Nat}
    (hCall : writer.accepts held offered = .ok (count + 1)) :
    count + 1 ≤ offered ∧
      ∀ c ∈ writer.capacity, held + (count + 1) ≤ c := by
  have hPart := bounded_le offered writer.perCall
  unfold accepts at hCall
  split at hCall
  · cases hCall
  · rw [Except.ok.injEq] at hCall
    have hCount :=
      bounded_le (bounded offered writer.perCall)
        (writer.room? held)
    refine ⟨by omega, ?_⟩
    intro c hCapacity
    rw [room?, hCapacity, Option.map_some, bounded] at hCall
    omega

/- Only a writer without room takes nothing or fails. -/
theorem full_of_accepts
    (hChunk : writer.perCall ≠ some 0)
    (hOffered : 0 < offered)
    {call : Except String Nat}
    (hCall : writer.accepts held offered = call)
    (hNone : ∀ count, call ≠ .ok (count + 1)) :
    ∃ c, writer.capacity = some c ∧ c ≤ held := by
  subst hCall
  have hPart : 0 < bounded offered writer.perCall := by
    cases hBound : writer.perCall with
    | none => exact hOffered
    | some chunk =>
        have hSome : chunk ≠ 0 := by
          rintro rfl
          exact hChunk hBound
        rw [bounded]
        omega
  unfold accepts room? at hNone
  generalize bounded offered writer.perCall = part
    at hPart hNone
  cases hCapacity : writer.capacity with
  | none =>
      have hAll := hNone (part - 1)
      simp [hCapacity, bounded, Nat.sub_add_cancel hPart]
        at hAll
  | some c =>
      refine ⟨c, rfl, ?_⟩
      by_contra hRoom
      have hLeft : c - held ≠ 0 := by omega
      have hCount :
          min part (c - held) - 1 + 1 =
            min part (c - held) := by
        omega
      have hSome := hNone (min part (c - held) - 1)
      simp [hCapacity, hLeft, bounded, hCount] at hSome

/- Offering bytes to a bounded writer is such repeated calls. -/
theorem writes_writeAll
    (hChunk : writer.perCall ≠ some 0)
    (held bytes : List UInt8) :
    Writes writer.capacity held bytes
      (writer.writeAll held bytes).1
      (writer.writeAll held bytes).2 := by
  induction held, bytes using writeAll.induct writer with
  | case1 held =>
      rw [writeAll]
      exact .done held
  | case2 held b bs reason hCall =>
      rw [writeAll, hCall]
      rcases full_of_accepts hChunk (Nat.succ_pos bs.length)
          hCall (by simp) with
        ⟨c, hCapacity, hFull⟩
      exact
        .failed (List.cons_ne_nil b bs) hCapacity hFull reason
  | case3 held b bs hCall =>
      rw [writeAll, hCall]
      rcases full_of_accepts hChunk (Nat.succ_pos bs.length)
          hCall (by simp) with
        ⟨c, hCapacity, hFull⟩
      exact .stalled (List.cons_ne_nil b bs) hCapacity hFull
  | case4 held b bs count hCall ih =>
      rw [writeAll, hCall]
      rcases room_of_accepts hCall with ⟨hOffered, hRoom⟩
      exact .taken (Nat.succ_pos count) hOffered hRoom ih

end Calls

------------------------------------------------------------
-- Sinks
------------------------------------------------------------

variable {σ : Type}

/-
  A sink writes each text to a writer by such calls.  `held`
  is what the writer holds in a state of the sink.
-/
def WritesTo
    (capacity : Option Nat)
    (held : σ → List UInt8)
    (sink : Sink σ) : Prop :=
  ∀ text s,
    Writes capacity (held s) (Text.bytes text)
      ((sink text).run s).1 (held ((sink text).run s).2)

/- The sink of a writer offers it the bytes of a text. -/
theorem run_sink
    (writer : Writer)
    (text : String)
    (held : List UInt8) :
    (writer.sink text).run held =
      writer.writeAll held (Text.bytes text) := by
  have hHeld :
      StateT.run
          (ExceptT.run
            (get :
              ExceptT SinkError (StateM (List UInt8)) _))
          held =
        pure (.ok held, held) := by
    rfl
  unfold sink
  rw [ExceptT.run_bind]
  -- `run_bind` applies only to a run that is named as one.
  change StateT.run (_ >>= _) held = _
  rw [StateT.run_bind, hHeld, pure_bind]
  dsimp only
  rcases writer.writeAll held (Text.bytes text) with
    ⟨cause | ⟨⟩, kept⟩
  · rfl
  · rfl

/- The sink of a bounded writer does so. -/
theorem writesTo_sink
    {writer : Writer}
    (hChunk : writer.perCall ≠ some 0) :
    WritesTo writer.capacity id writer.sink := by
  intro text held
  rw [run_sink]
  exact writes_writeAll hChunk held (Text.bytes text)

/- Texts are kept one behind another, as far as they fit. -/
theorem stored_forM
    {capacity : Option Nat}
    {held : σ → List UInt8}
    {sink : Sink σ}
    (hSink : WritesTo capacity held sink)
    (texts : List String)
    (s : σ)
    (hHeld : ∀ c ∈ capacity, (held s).length ≤ c) :
    Stored capacity (held s ++ texts.flatMap Text.bytes)
      ((texts.forM sink).run s).1
      (held ((texts.forM sink).run s).2) := by
  induction texts generalizing s with
  | nil =>
      rw [List.flatMap_nil, List.append_nil]
      exact stored_whole hHeld
  | cons text texts ih =>
      rw [List.flatMap_cons, ← List.append_assoc]
      have hText := stored_of_writes (hSink text s) hHeld
      rcases hRun : (sink text).run s with ⟨cause | ⟨⟩, s'⟩
      · rw [hRun] at hText
        rw [Sink.forM_cons_of_refused hRun]
        exact hText.append_of_error _
      · rw [hRun] at hText
        rw [Sink.forM_cons_of_taken hRun]
        have hFits := hText.ok_iff.mp rfl
        have hKept :
            held s' = held s ++ Text.bytes text := by
          rcases hText.cases with
            ⟨_, _, hKept⟩ | ⟨_, _, _, _, hError, _⟩
          · exact hKept
          · cases hError
        rw [← hKept] at hFits ⊢
        exact ih s' hFits

------------------------------------------------------------
-- Streaming to a Writer
------------------------------------------------------------

/- A value within the limits is kept as far as it fits. -/
theorem stored_encodeTo
    {limits : Limits}
    {v : Value}
    {text : String}
    (hEncode : encode limits v = .ok text)
    {capacity : Option Nat}
    {held : σ → List UInt8}
    {sink : Sink σ}
    (hSink : WritesTo capacity held sink)
    {s : σ}
    (hEmpty : held s = []) :
    ∃ outcome s',
      (encodeTo limits sink v).run s =
          (outcome.mapError .sink, s') ∧
        Stored capacity (Text.bytes text) outcome
          (held s') := by
  have hStored :=
    stored_forM hSink (fragments v) s (by simp [hEmpty])
  rw [hEmpty, List.nil_append, Canonical.flatMap_bytes,
    Canonical.join_fragments,
    ← Canonical.eq_ofValue_of_encode hEncode] at hStored
  exact
    ⟨_, _, Canonical.encodeTo_of_encode_ok hEncode sink s,
      hStored⟩

/-
  Short writes lose and repeat nothing.  When the limits
  reject a value, a writer is not touched.  Otherwise every
  writer that held nothing ends up with the bytes of the
  encoding, up to its capacity and from the first on; writing
  succeeds exactly when that is all of them, and fails as a
  failed write when it is not.  This holds whatever number of
  bytes each call takes, and if it always takes as many as a
  bound on each call and the capacity admit.
-/
theorem encodeTo_stores_first_bytes
    (limits : Limits)
    (v : Value) :
    (∀ cause,
      encode limits v = .error cause →
        ∀ (σ : Type) (sink : Sink σ) (s : σ),
          (encodeTo limits sink v).run s =
            (.error cause, s)) ∧
      ∀ text,
        encode limits v = .ok text →
          (∀ (σ : Type) (capacity : Option Nat)
            (held : σ → List UInt8) (sink : Sink σ),
            WritesTo capacity held sink →
              ∀ s, held s = [] →
                ∃ outcome s',
                  (encodeTo limits sink v).run s =
                      (outcome.mapError .sink, s') ∧
                    Stored capacity (Text.bytes text) outcome
                      (held s')) ∧
            ∀ writer : Writer,
              writer.perCall ≠ some 0 →
                ∃ outcome kept,
                  (encodeTo limits writer.sink v).run [] =
                      (outcome.mapError .sink, kept) ∧
                    Stored writer.capacity (Text.bytes text)
                      outcome kept := by
  constructor
  · intro cause hEncode σ sink s
    exact Canonical.encodeTo_of_encode_error hEncode sink s
  · intro text hEncode
    constructor
    · intro σ capacity held sink hSink s hEmpty
      exact stored_encodeTo hEncode hSink hEmpty
    · intro writer hChunk
      exact
        stored_encodeTo hEncode (writesTo_sink hChunk) rfl

/- A writer with room for three bytes, two in each call. -/
def narrow : Writer where
  perCall := some 2
  capacity := some 3
  stalls := true
  refusesFlush := false

/- A sequence of a text of one character of two bytes. -/
def accented : Value := .sequence [.string "é"]

/- The capacity may end inside the bytes of a character. -/
theorem encodeTo_stores_first_bytes_of_character :
    (encodeTo ⟨1, 5⟩ narrow.sink accented).run [] =
        (.error (.tooLarge 5), []) ∧
      WritesTo narrow.capacity id narrow.sink ∧
      ∃ reason,
        (encodeTo ⟨1, 6⟩ narrow.sink accented).run [] =
          (.error (.sink (.failed reason)),
            [0x5B, 0x22, 0xC3]) := by
  have hTight :
      encode ⟨1, 5⟩ accented = .error (.tooLarge 5) := by
    decide +kernel
  have hWide : encode ⟨1, 6⟩ accented = .ok "[\"é\"]" := by
    decide +kernel
  have hChunk : narrow.perCall ≠ some 0 := by decide
  have hSink := writesTo_sink hChunk
  rcases encodeTo_stores_first_bytes ⟨1, 5⟩ accented with
    ⟨hRejected, _⟩
  rcases encodeTo_stores_first_bytes ⟨1, 6⟩ accented with
    ⟨_, hAccepted⟩
  rcases (hAccepted _ hWide).1 _ _ id narrow.sink hSink []
      rfl with
    ⟨outcome, kept, hRun, hStored⟩
  have hFirst :
      (Text.bytes "[\"é\"]").take (bounded 6 (some 3)) =
        [0x5B, 0x22, 0xC3] := by
    decide +kernel
  have hShort : ¬ (Text.bytes "[\"é\"]").length ≤ 3 := by
    decide +kernel
  refine
    ⟨hRejected _ hTight (List UInt8) narrow.sink [], hSink,
      ?_⟩
  cases outcome with
  | ok result =>
      exact absurd (hStored.ok_iff.mp rfl 3 rfl) hShort
  | error cause =>
      rcases hStored.error_failed cause rfl with
        ⟨reason, rfl⟩
      refine ⟨reason, ?_⟩
      rw [hRun, ← hFirst]
      exact congrArg (Prod.mk _) hStored.kept_eq

end Writer

end SignedMetadata
