import SignedMetadata.Canonical.Stream

/-
  The fragments of a canonical text.

  Writing a value hands one fixed list of fragments to the
  receiver, one after another, whatever the receiver does
  with them.  Joined, the fragments are the canonical text.

  Main declarations:
    * `fragments`
    * `write_eq_forM`
    * `join_fragments`
    * `write_collector`
    * `encodeTo_collector`
-/

namespace SignedMetadata

namespace Canonical

------------------------------------------------------------
-- The List of Fragments
------------------------------------------------------------

mutual

/- The fragments of a value, in order. -/
def fragments : Value → List String
| .null => ["null"]
| .bool true => ["true"]
| .bool false => ["false"]
| .integer i => [Text.ofInteger i]
| .string s => stringFragments s
| .sequence items =>
    "[" :: itemFragments [] items ++ ["]"]
| .mapping members =>
    "\x7b" :: memberFragments [] members ++ ["\x7d"]

/-
  The fragments of elements, with `lead` before the first
  and a comma before every other element.
-/
def itemFragments
    (lead : List String) : List Value → List String
| [] => []
| v :: vs => lead ++ fragments v ++ itemFragments [","] vs

/- The fragments of members, likewise. -/
def memberFragments
    (lead : List String) :
    List (String × Value) → List String
| [] => []
| (k, v) :: ms =>
    lead ++ stringFragments k ++ ":" :: fragments v ++
      memberFragments [","] ms

end

------------------------------------------------------------
-- Writing
------------------------------------------------------------

section Writing

variable {m : Type → Type} [Monad m] [LawfulMonad m]
variable (emit : String → m Unit)

mutual

/- Writing a value emits its fragments. -/
theorem write_eq_forM (v : Value) :
    write emit v = (fragments v).forM emit := by
  cases v with
  | null => simp [write, fragments]
  | bool b => cases b <;> simp [write, fragments]
  | integer i => simp [write, fragments]
  | string s => simp [write, fragments, writeString]
  | sequence items =>
      simp [write, fragments,
        writeItems_eq_forM [] items]
  | mapping members =>
      simp [write, fragments,
        writeMembers_eq_forM [] members]

/- Writing elements emits their fragments. -/
theorem writeItems_eq_forM
    (lead : List String)
    (vs : List Value) :
    writeItems emit lead vs =
      (itemFragments lead vs).forM emit := by
  cases vs with
  | nil => simp [writeItems, itemFragments]
  | cons v vs =>
      simp [writeItems, itemFragments, write_eq_forM v,
        writeItems_eq_forM [","] vs]

/- Writing members emits their fragments. -/
theorem writeMembers_eq_forM
    (lead : List String)
    (ms : List (String × Value)) :
    writeMembers emit lead ms =
      (memberFragments lead ms).forM emit := by
  cases ms with
  | nil => simp [writeMembers, memberFragments]
  | cons member ms =>
      rcases member with ⟨k, v⟩
      simp [writeMembers, memberFragments, writeString,
        write_eq_forM v, writeMembers_eq_forM [","] ms]

end

end Writing

------------------------------------------------------------
-- Joined Fragments
------------------------------------------------------------

/- A run of characters is written as it is. -/
theorem join_runFragments (run : List Char) :
    String.join (runFragments run) =
      String.ofList run.reverse := by
  cases run with
  | nil => rfl
  | cons c cs => simp [runFragments]

/- A string is cut without losing or adding characters. -/
theorem join_bodyFragments
    (run cs : List Char) :
    String.join (bodyFragments run cs) =
      String.ofList
        (run.reverse ++ cs.flatMap escapeChar) := by
  induction cs generalizing run with
  | nil => simp [bodyFragments, join_runFragments]
  | cons c cs ih =>
      by_cases hEscaped : isEscaped c = true
      · simp [bodyFragments, hEscaped, ih, escapeChar,
          join_runFragments]
      · simp [bodyFragments, hEscaped, ih, escapeChar]

/- The fragments of a string are its canonical text. -/
theorem join_stringFragments (s : String) :
    String.join (stringFragments s) = ofString s := by
  simp [stringFragments, ofString, join_bodyFragments]

mutual

/- The fragments of a value are its canonical text. -/
theorem join_fragments (v : Value) :
    String.join (fragments v) = ofValue v := by
  cases v with
  | null => rfl
  | bool b => cases b <;> rfl
  | integer i => simp [fragments, ofValue]
  | string s =>
      simp [fragments, ofValue, join_stringFragments]
  | sequence items =>
      simp [fragments, ofValue, String.append_assoc,
        join_itemFragments [] items]
  | mapping members =>
      simp [fragments, ofValue, String.append_assoc,
        join_memberFragments [] members]

/- The fragments of elements are their canonical text. -/
theorem join_itemFragments
    (lead : List String)
    (vs : List Value) :
    String.join (itemFragments lead vs) =
      ofItems (String.join lead) vs := by
  cases vs with
  | nil => rfl
  | cons v vs =>
      simp [itemFragments, ofItems, join_fragments v,
        String.append_assoc, join_itemFragments [","] vs]

/- The fragments of members are their canonical text. -/
theorem join_memberFragments
    (lead : List String)
    (ms : List (String × Value)) :
    String.join (memberFragments lead ms) =
      ofMembers (String.join lead) ms := by
  cases ms with
  | nil => rfl
  | cons member ms =>
      rcases member with ⟨k, v⟩
      simp [memberFragments, ofMembers, join_fragments v,
        join_stringFragments, String.append_assoc,
        join_memberFragments [","] ms]

end

------------------------------------------------------------
-- Collecting
------------------------------------------------------------

/- A collector takes all fragments and joins them. -/
theorem forM_collector
    (texts : List String)
    (received : String) :
    (texts.forM Sink.collector).run received =
      (.ok (), received ++ String.join texts) := by
  induction texts generalizing received with
  | nil =>
      rw [String.join_nil, String.append_empty]
      rfl
  | cons text texts ih =>
      have hStep :
          ((text :: texts).forM Sink.collector).run received =
            (texts.forM Sink.collector).run
              (received ++ text) := rfl
      rw [hStep, ih]
      simp [String.append_assoc]

/- A collector receives the canonical text. -/
theorem write_collector
    (v : Value)
    (received : String) :
    (write Sink.collector v).run received =
      (.ok (), received ++ ofValue v) := by
  rw [write_eq_forM, forM_collector, join_fragments]

/- A collector ends up with the encoding, or with nothing. -/
theorem encodeTo_collector
    (limits : Limits)
    (v : Value) :
    (encodeTo limits Sink.collector v).run "" =
      match encode limits v with
      | .ok text => (.ok (), text)
      | .error cause => (.error cause, "") := by
  unfold encodeTo encode
  cases length limits v with
  | error cause => rfl
  | ok n =>
      have hAdapt :
          (ExceptT.adapt EncodeError.sink
              (write Sink.collector v)).run "" =
            (((write Sink.collector v).run "").1.mapError
                .sink,
              ((write Sink.collector v).run "").2) := by
        rfl
      rw [write_collector, String.empty_append] at hAdapt
      exact hAdapt

end Canonical

end SignedMetadata
