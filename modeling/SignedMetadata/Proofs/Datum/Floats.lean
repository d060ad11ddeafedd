import SignedMetadata.Proofs.Conversion
import SignedMetadata.Proofs.Datum.Writing

/-
  Floating-point numbers in typed data.

  A finite number is written as a literal with a mark of a
  fraction, which no value is converted from.  But a number
  that is not finite is written as null, and an entry of a
  map takes the place of earlier entries of the same key.  A
  number that is written is rejected, and one that is not
  makes no difference: the data is accepted or rejected as if
  null stood there.

  Main declarations:
    * `Datum.HasFloat`
    * `Datum.WritesFloat`
    * `Datum.withoutFloats`
    * `Datum.toJson_withoutFloats`
    * `Datum.floats_rejected_or_lost`
-/

namespace SignedMetadata

open Fallible

------------------------------------------------------------
-- Typed Data
------------------------------------------------------------

namespace Datum

/- A floating-point number occurs in the data as a value. -/
inductive HasFloat : Datum → Prop
| float
    (format : FloatFormat) (number : FloatingPoint) :
    HasFloat (.float format number)
| present
    {datum : Datum} (hFloat : HasFloat datum) :
    HasFloat (.present datum)
| item
    {datum : Datum} {items : List Datum}
    (hMember : datum ∈ items) (hFloat : HasFloat datum) :
    HasFloat (.sequence items)
| entry
    {key datum : Datum} {entries : List (Datum × Datum)}
    (hMember : (key, datum) ∈ entries)
    (hFloat : HasFloat datum) :
    HasFloat (.map entries)
| content
    {name : String} {datum : Datum}
    (hFloat : HasFloat datum) :
    HasFloat (.tagged name datum)

/-
  A floating-point number of the data is written as a number:
  it is finite, and no later entry takes the place of one
  that it occurs in.
-/
inductive WritesFloat : Datum → Prop
| float
    (format : FloatFormat) (negative : Bool)
    (significand : Nat) (exponent : Int) :
    WritesFloat
      (.float format (.finite negative significand exponent))
| present
    {datum : Datum} (hFloat : WritesFloat datum) :
    WritesFloat (.present datum)
| item
    {datum : Datum} {items : List Datum}
    (hMember : datum ∈ items) (hFloat : WritesFloat datum) :
    WritesFloat (.sequence items)
| entry
    {key datum : Datum}
    {before behind : List (Datum × Datum)}
    (hLast :
      ∀ entry ∈ behind, entry.1.keyText ≠ key.keyText)
    (hFloat : WritesFloat datum) :
    WritesFloat (.map (before ++ (key, datum) :: behind))
| content
    {name : String} {datum : Datum}
    (hFloat : WritesFloat datum) :
    WritesFloat (.tagged name datum)

mutual

/- The data with null in place of floating-point numbers. -/
def withoutFloats : Datum → Datum
| .float _ _ => .unit
| .present datum => .present (withoutFloats datum)
| .sequence items => .sequence (withoutFloatsItems items)
| .map entries => .map (withoutFloatsEntries entries)
| .tagged name content => .tagged name (withoutFloats content)
| datum => datum

/- Elements with null in place of such numbers. -/
def withoutFloatsItems : List Datum → List Datum
| [] => []
| datum :: rest =>
    withoutFloats datum :: withoutFloatsItems rest

/- Entries with null in place of such numbers. -/
def withoutFloatsEntries :
    List (Datum × Datum) → List (Datum × Datum)
| [] => []
| (key, datum) :: rest =>
    (key, withoutFloats datum) :: withoutFloatsEntries rest

end

mutual

/-
  Nothing of the data is lost when it is written: all
  floating-point numbers are finite, and all entries of a map
  have keys of their own.
-/
def Faithful : Datum → Prop
| .float _ number =>
    ∃ negative significand exponent,
      number = .finite negative significand exponent
| .present datum => Faithful datum
| .sequence items => FaithfulItems items
| .map entries =>
    (entries.map fun entry => entry.1.keyText).Nodup ∧
      FaithfulEntries entries
| .tagged _ content => Faithful content
| _ => True

/- All elements are faithful. -/
def FaithfulItems : List Datum → Prop
| [] => True
| datum :: rest => Faithful datum ∧ FaithfulItems rest

/- The values of all entries are faithful. -/
def FaithfulEntries : List (Datum × Datum) → Prop
| [] => True
| (_, datum) :: rest => Faithful datum ∧ FaithfulEntries rest

end

variable {datum : Datum}
variable {entries : List (Datum × Datum)}

------------------------------------------------------------
-- Numbers that Are Written
------------------------------------------------------------

/- Data that a number is written in is rejected. -/
theorem WritesFloat.rejected
    {json : Json}
    (hFloat : WritesFloat datum)
    (hJson : datum.toJson = .ok json) :
    json.Rejected := by
  induction hFloat generalizing json with
  | float format negative significand exponent =>
      rcases FloatingPoint.exists_literal?_finite format
          negative significand exponent with
        ⟨literal, hLiteral, hFraction⟩
      rw [toJson, hLiteral, Except.ok.injEq] at hJson
      rw [← hJson]
      exact Json.rejected_number hFraction
  | present _ ih => exact ih hJson
  | item hMember _ ih =>
      rw [toJson] at hJson
      simp only [bind_eq_ok_iff, return_eq_ok_iff] at hJson
      rcases hJson with ⟨jsons, hItems, rfl⟩
      rcases exists_mem_of_toJsonItems hItems hMember with
        ⟨found, hFound, hWritten⟩
      exact Json.rejected_array hFound (ih hWritten)
  | entry hLast _ ih =>
      rw [toJson] at hJson
      simp only [bind_eq_ok_iff, return_eq_ok_iff] at hJson
      rcases hJson with ⟨members, hEntries, rfl⟩
      rcases exists_find?_toJsonEntries hEntries hLast with
        ⟨text, found, hWritten, hFind⟩
      rcases List.lookup_eq_some_iff.mp hFind with
        ⟨front, back, hMembers, _⟩
      have hMember : (text, found) ∈ members := by
        rw [hMembers]
        exact List.mem_append_right _ List.mem_cons_self
      exact Json.rejected_object hMember (ih hWritten)
  | content _ ih =>
      rw [toJson] at hJson
      simp only [bind_eq_ok_iff, return_eq_ok_iff] at hJson
      rcases hJson with ⟨found, hWritten, rfl⟩
      exact
        Json.rejected_object List.mem_cons_self (ih hWritten)

/- Such data has no value. -/
theorem WritesFloat.exists_ofDatum_error
    (hFloat : WritesFloat datum) :
    ∃ cause, Value.ofDatum datum = .error cause := by
  cases hValue : Value.ofDatum datum with
  | error cause => exact ⟨cause, rfl⟩
  | ok v =>
      rw [Value.ofDatum, bind_eq_ok_iff] at hValue
      rcases hValue with ⟨json, hJson, hConvert⟩
      exact absurd hConvert (hFloat.rejected hJson _ _ _)

/- Such data has no canonical text, under any limits. -/
theorem WritesFloat.exists_encodeDatum_error
    (hFloat : WritesFloat datum)
    (limits : Limits) :
    ∃ cause,
      Canonical.encodeDatum limits datum = .error cause := by
  cases hText : Canonical.encodeDatum limits datum with
  | error cause => exact ⟨cause, rfl⟩
  | ok text =>
      simp only [Canonical.encodeDatum, Canonical.encodeJson,
        bind_eq_ok_iff] at hText
      rcases hText with ⟨json, hJson, v, hConvert, _⟩
      exact absurd hConvert (hFloat.rejected hJson _ _ _)

------------------------------------------------------------
-- Numbers that Are Lost
------------------------------------------------------------

mutual

/- Data fails to be written like that without its numbers. -/
theorem failsAlike_withoutFloats (datum : Datum) :
    FailsAlike datum.toJson datum.withoutFloats.toJson := by
  cases datum with
  | float format number =>
      rw [withoutFloats, toJson, toJson]
      cases number.literal? format with
      | none => exact .refl _
      | some literal => exact .of_ok _ _
  | present datum => exact failsAlike_withoutFloats datum
  | sequence items =>
      exact
        (failsAlike_withoutFloatsItems items).bind
          fun _ _ => .of_ok _ _
  | map entries =>
      exact
        (failsAlike_withoutFloatsEntries entries [] []).bind
          fun _ _ => .of_ok _ _
  | tagged name content =>
      exact
        (failsAlike_withoutFloats content).bind
          fun _ _ => .of_ok _ _
  | _ => exact .refl _

/- Elements fail to be written alike. -/
theorem failsAlike_withoutFloatsItems (items : List Datum) :
    FailsAlike (toJsonItems items)
      (toJsonItems (withoutFloatsItems items)) := by
  cases items with
  | nil => exact .refl _
  | cons datum rest =>
      apply (failsAlike_withoutFloats datum).bind
      intro _ _
      apply (failsAlike_withoutFloatsItems rest).bind
      intro _ _
      exact .of_ok _ _

/- Entries fail to be written alike, after any others. -/
theorem failsAlike_withoutFloatsEntries
    (entries : List (Datum × Datum))
    (read other : Members Json) :
    FailsAlike (toJsonEntries read entries)
      (toJsonEntries other
        (withoutFloatsEntries entries)) := by
  cases entries with
  | nil => exact .of_ok _ _
  | cons entry rest =>
      rcases entry with ⟨key, datum⟩
      apply (FailsAlike.refl key.keyText).bind
      intro text otherText
      apply (failsAlike_withoutFloats datum).bind
      intro json otherJson
      exact failsAlike_withoutFloatsEntries rest _ _

end

/- A number is written in the last entry of a key. -/
theorem WritesFloat.first
    {entryKey : Datum}
    (hLast :
      ∀ entry ∈ entries,
        entry.1.keyText ≠ entryKey.keyText)
    (hFloat : WritesFloat datum) :
    WritesFloat (.map ((entryKey, datum) :: entries)) := by
  rw [← List.nil_append ((entryKey, datum) :: entries)]
  exact .entry hLast hFloat

/- A number is written whatever entries come before. -/
theorem WritesFloat.later
    (entry : Datum × Datum)
    (hFloat : WritesFloat (.map entries)) :
    WritesFloat (.map (entry :: entries)) := by
  generalize hMap : Datum.map entries = map at hFloat
  cases hFloat with
  | entry hLast hFloat =>
      cases hMap
      rw [← List.cons_append]
      exact .entry hLast hFloat
  | _ => cases hMap

mutual

/- Without numbers that are written, data is written alike. -/
theorem toJson_withoutFloats
    (datum : Datum)
    (hNone : ¬ WritesFloat datum) :
    datum.withoutFloats.toJson = datum.toJson := by
  cases datum with
  | float format number =>
      cases number with
      | finite negative significand exponent =>
          exact absurd (.float _ _ _ _) hNone
      | _ => rfl
  | present datum =>
      exact
        toJson_withoutFloats datum fun hFloat =>
          hNone (.present hFloat)
  | sequence items =>
      have hItems :=
        toJsonItems_withoutFloats items fun datum hMember
            hFloat =>
          hNone (.item hMember hFloat)
      rw [withoutFloats, toJson, toJson, hItems]
  | map entries =>
      have hEntries :=
        toJsonEntries_withoutFloats entries hNone [] []
          Members.ascending_nil Members.ascending_nil
          fun _ _ => rfl
      rw [withoutFloats, toJson, toJson, hEntries]
  | tagged name content =>
      have hContent :=
        toJson_withoutFloats content fun hFloat =>
          hNone (.content hFloat)
      rw [withoutFloats, toJson, toJson, hContent]
  | _ => rfl

/- Elements without such numbers are written alike. -/
theorem toJsonItems_withoutFloats
    (items : List Datum)
    (hNone : ∀ datum ∈ items, ¬ WritesFloat datum) :
    toJsonItems (withoutFloatsItems items) =
      toJsonItems items := by
  cases items with
  | nil => rfl
  | cons datum rest =>
      rw [List.forall_mem_cons] at hNone
      rw [withoutFloatsItems, toJsonItems, toJsonItems,
        toJson_withoutFloats datum hNone.1,
        toJsonItems_withoutFloats rest hNone.2]

/-
  Entries without such numbers are written alike behind
  members that have the same under all keys but those of the
  entries.
-/
theorem toJsonEntries_withoutFloats
    (entries : List (Datum × Datum))
    (hNone : ¬ WritesFloat (.map entries))
    (read other : Members Json)
    (hRead : Members.Ascending read)
    (hOther : Members.Ascending other)
    (hSame :
      ∀ key,
        (∀ entry ∈ entries, entry.1.keyText ≠ .ok key) →
          Members.find? other key = Members.find? read key) :
    toJsonEntries other (withoutFloatsEntries entries) =
      toJsonEntries read entries := by
  cases entries with
  | nil =>
      have hMembers :=
        Members.eq_of_find?_eq hOther hRead fun key =>
          hSame key (List.forall_mem_nil _)
      rw [withoutFloatsEntries, hMembers]
  | cons entry rest =>
      rcases entry with ⟨entryKey, datum⟩
      rw [withoutFloatsEntries, toJsonEntries, toJsonEntries]
      cases hText : entryKey.keyText with
      | error cause => rfl
      | ok text =>
          have hAlike := failsAlike_withoutFloats datum
          cases hJson : datum.toJson with
          | error cause =>
              rw [(hAlike cause).mp hJson]
              rfl
          | ok json =>
              rcases hAlike.exists_ok hJson with
                ⟨lost, hLost⟩
              rw [hLost]
              apply toJsonEntries_withoutFloats rest
                (fun hFloat => hNone (hFloat.later _)) _ _
                (Members.ascending_insert hRead)
                (Members.ascending_insert hOther)
              intro key hRest
              apply Members.find?_insert_congr
              · -- The entry is the last one of its key.
                rintro rfl
                rw [← hText] at hRest
                have hDatum : ¬ WritesFloat datum :=
                  fun hFloat => hNone (.first hRest hFloat)
                rw [toJson_withoutFloats datum hDatum,
                  hJson] at hLost
                exact (Except.ok.inj hLost).symm
              · intro hKey
                apply hSame
                rw [List.forall_mem_cons, hText]
                refine ⟨?_, hRest⟩
                intro hBound
                exact hKey (Except.ok.inj hBound).symm

end

------------------------------------------------------------
-- Accepted and Rejected Data
------------------------------------------------------------

/- All elements are faithful if each of them is. -/
theorem faithfulItems_iff
    {items : List Datum} :
    FaithfulItems items ↔
      ∀ datum ∈ items, Faithful datum := by
  induction items with
  | nil => simp [FaithfulItems]
  | cons datum rest ih => simp [FaithfulItems, ih]

/- All entries are faithful if each of their values is. -/
theorem faithfulEntries_iff :
    FaithfulEntries entries ↔
      ∀ entry ∈ entries, Faithful entry.2 := by
  induction entries with
  | nil => simp [FaithfulEntries]
  | cons entry rest ih => simp [FaithfulEntries, ih]

/- Every number of faithful data is written. -/
theorem HasFloat.writesFloat
    (hFloat : HasFloat datum)
    (hFaithful : Faithful datum) :
    WritesFloat datum := by
  induction hFloat with
  | float format number =>
      rcases hFaithful with
        ⟨negative, significand, exponent, rfl⟩
      exact .float _ _ _ _
  | present _ ih => exact .present (ih hFaithful)
  | item hMember _ ih =>
      have hDatum := faithfulItems_iff.mp hFaithful _ hMember
      exact .item hMember (ih hDatum)
  | @entry key datum entries hMember _ ih =>
      rcases hFaithful with ⟨hNodup, hValues⟩
      have hDatum :=
        faithfulEntries_iff.mp hValues _ hMember
      rcases List.append_of_mem hMember with
        ⟨before, behind, rfl⟩
      rw [List.map_append, List.map_cons] at hNodup
      have hBehind := hNodup.of_append_right
      rw [List.nodup_cons] at hBehind
      refine .entry ?_ (ih hDatum)
      intro later hLater hSame
      exact
        hBehind.1 (List.mem_map.mpr ⟨later, hLater, hSame⟩)
  | content _ ih => exact .content (ih hFaithful)

/-
  Data that a floating-point number is written in has neither
  a value nor canonical text.  Numbers that are not written
  make no difference: the data is accepted or rejected as if
  null stood in their place.  Every number is written if all
  of them are finite, and all entries of a map have keys of
  their own.
-/
theorem floats_rejected_or_lost (datum : Datum) :
    (WritesFloat datum →
        (∃ cause, Value.ofDatum datum = .error cause) ∧
          ∀ limits, ∃ cause,
            Canonical.encodeDatum limits datum =
              .error cause) ∧
      (¬ WritesFloat datum →
        Value.ofDatum datum =
            Value.ofDatum datum.withoutFloats ∧
          ∀ limits,
            Canonical.encodeDatum limits datum =
              Canonical.encodeDatum limits
                datum.withoutFloats) ∧
      (HasFloat datum → Faithful datum →
        WritesFloat datum) := by
  refine ⟨?_, ?_, HasFloat.writesFloat⟩
  · intro hFloat
    exact
      ⟨hFloat.exists_ofDatum_error,
        hFloat.exists_encodeDatum_error⟩
  · intro hNone
    have hJson := toJson_withoutFloats datum hNone
    constructor
    · rw [Value.ofDatum, Value.ofDatum, hJson]
    · intro limits
      rw [Canonical.encodeDatum, Canonical.encodeDatum, hJson]

/- A number of 32 bits under a key that is an integer. -/
def measured : Datum :=
  .map
    [(.integer 7,
      .present (.float .binary32 (.finite false 3 (-1))))]

/- Elements of which one is no number. -/
def unmeasured : Datum :=
  .sequence [.absent, .float .binary64 .nan]

/- A number is rejected, and what is no number is lost. -/
theorem floats_rejected_or_lost_measured :
    (∃ cause, Value.ofDatum measured = .error cause) ∧
      (∃ cause,
        Canonical.encodeDatum .standard measured =
          .error cause) ∧
      Value.ofDatum unmeasured =
        Value.ofDatum (.sequence [.absent, .unit]) := by
  have hFloat : HasFloat measured :=
    .entry List.mem_cons_self (.present (.float _ _))
  have hFaithful : Faithful measured :=
    ⟨List.nodup_singleton _, ⟨false, 3, -1, rfl⟩, trivial⟩
  have hNone : ¬ WritesFloat unmeasured := by
    intro hWritten
    cases hWritten with
    | item hMember hWritten =>
        simp only [List.mem_cons, List.not_mem_nil, or_false]
          at hMember
        rcases hMember with rfl | rfl <;> cases hWritten
  rcases floats_rejected_or_lost measured with
    ⟨hRejected, _, hWrites⟩
  rcases floats_rejected_or_lost unmeasured with
    ⟨_, hLost, _⟩
  rcases hRejected (hWrites hFloat hFaithful) with
    ⟨hValue, hText⟩
  exact ⟨hValue, hText .standard, (hLost hNone).1⟩

/- A number under a key that is given something else. -/
def replaced : Datum :=
  .map
    [(.string "a", .float .binary64 (.finite false 3 (-1))),
      (.string "a", .integer 2)]

/-
  What is no number, and a number that a later entry takes
  the place of, are accepted.
-/
theorem lost_floats_are_accepted :
    HasFloat (.float .binary64 .nan) ∧
      Value.ofDatum (.float .binary64 .nan) = .ok .null ∧
      Canonical.encodeDatum .standard
          (.float .binary64 .nan) =
        .ok "null" ∧
      HasFloat replaced ∧
      Value.ofDatum replaced =
        .ok (.mapping [("a", .integer 2)]) ∧
      Canonical.encodeDatum .standard replaced =
        .ok "\x7b\"a\":2\x7d" := by
  refine
    ⟨.float _ _, by decide +kernel, by decide +kernel,
      .entry List.mem_cons_self (.float _ _),
      by decide +kernel, by decide +kernel⟩

end Datum

end SignedMetadata
