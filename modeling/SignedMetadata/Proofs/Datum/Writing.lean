import SignedMetadata.Datum
import SignedMetadata.Proofs.Fallible
import SignedMetadata.Proofs.Members

/-
  How typed data is written as JSON data.

  A finite floating-point number is written as a literal with
  a mark of a fraction, so that it is no integer.  Elements
  are written in their places, and entries of a map under the
  texts of their keys, where a later entry takes the place of
  an earlier one of the same key.

  Main declarations:
    * `FloatingPoint.exists_literal?_finite`
    * `Datum.find?_toJsonEntries`
    * `Datum.exists_find?_toJsonEntries`
    * `Datum.exists_mem_of_toJsonItems`
-/

namespace SignedMetadata

open Fallible

------------------------------------------------------------
-- Literals
------------------------------------------------------------

namespace FloatingPoint

/- Digits by position have a point. -/
theorem any_marksFraction_positional
    (digits : List Char)
    (point : Int) :
    (positional ".0".toList digits point).any marksFraction =
      true := by
  unfold positional
  split
  · simp [marksFraction]
  · split
    · simp [pointed, marksFraction]
    · simp [marksFraction]

/- Digits with an exponent have the mark of one. -/
theorem any_marksFraction_scientific
    (digits : List Char)
    (point : Int) :
    (scientific digits point).any marksFraction = true := by
  simp [scientific, marksFraction]

/- A finite number is written as a literal of a fraction. -/
theorem exists_literal?_finite
    (format : FloatFormat)
    (negative : Bool)
    (significand : Nat)
    (exponent : Int) :
    ∃ literal,
      literal? format
            (.finite negative significand exponent) =
          some literal ∧
        integerOfLiteral literal = .error .fractional := by
  have hFraction :
      ∀ body : List Char,
        body.any marksFraction = true →
          integerOfLiteral
              (String.ofList (signText negative ++ body)) =
            .error .fractional := by
    intro body hBody
    have hMarks :
        (String.ofList
            (signText negative ++ body)).toList.any
              marksFraction =
          true := by
      rw [String.toList_ofList, List.any_append, hBody,
        Bool.or_true]
    rw [integerOfLiteral, if_pos hMarks]
  unfold literal?
  dsimp only
  by_cases hZero : significand = 0
  · rw [if_pos hZero]
    exact ⟨_, rfl, hFraction _ (by decide)⟩
  · rw [if_neg hZero]
    refine ⟨_, rfl, hFraction _ ?_⟩
    split
    · exact any_marksFraction_positional _ _
    · exact any_marksFraction_scientific _ _

end FloatingPoint

------------------------------------------------------------
-- Containers
------------------------------------------------------------

namespace Datum

variable {key : String}
variable {datum : Datum}
variable {read ms : Members Json}
variable {entries : List (Datum × Datum)}

/- Entries are written under the texts of their keys. -/
theorem toJsonEntries_cons_iff
    {entryKey : Datum} :
    toJsonEntries read ((entryKey, datum) :: entries) =
        .ok ms ↔
      ∃ text, entryKey.keyText = .ok text ∧
        ∃ json, datum.toJson = .ok json ∧
          toJsonEntries (Members.insert text json read)
              entries =
            .ok ms := by
  simp only [toJsonEntries, bind_eq_ok_iff]

/- Entries of other keys do not change what a key has. -/
theorem find?_toJsonEntries
    (hWritten : toJsonEntries read entries = .ok ms)
    (hOthers :
      ∀ entry ∈ entries, entry.1.keyText ≠ .ok key) :
    Members.find? ms key = Members.find? read key := by
  induction entries generalizing read with
  | nil =>
      rw [toJsonEntries, Except.ok.injEq] at hWritten
      rw [hWritten]
  | cons entry rest ih =>
      rcases entry with ⟨entryKey, datum⟩
      rcases toJsonEntries_cons_iff.mp hWritten with
        ⟨text, hText, json, _, hRest⟩
      rw [List.forall_mem_cons] at hOthers
      have hOther : key ≠ text := by
        rintro rfl
        exact hOthers.1 hText
      rw [ih hRest hOthers.2,
        Members.find?_insert_of_ne _ _ hOther]

/- The last entry of a key is what the key has at the end. -/
theorem exists_find?_toJsonEntries
    {entryKey : Datum}
    {before behind : List (Datum × Datum)}
    (hWritten :
      toJsonEntries read
          (before ++ (entryKey, datum) :: behind) =
        .ok ms)
    (hLast :
      ∀ entry ∈ behind,
        entry.1.keyText ≠ entryKey.keyText) :
    ∃ text json,
      datum.toJson = .ok json ∧
        Members.find? ms text = some json := by
  induction before generalizing read with
  | nil =>
      rcases toJsonEntries_cons_iff.mp hWritten with
        ⟨text, hText, json, hJson, hRest⟩
      refine ⟨text, json, hJson, ?_⟩
      rw [hText] at hLast
      rw [find?_toJsonEntries hRest hLast,
        Members.find?_insert_self]
  | cons entry before ih =>
      rcases entry with ⟨otherKey, other⟩
      rcases toJsonEntries_cons_iff.mp hWritten with
        ⟨_, _, _, _, hRest⟩
      exact ih hRest

/- Elements are written in their places. -/
theorem exists_mem_of_toJsonItems
    {items : List Datum}
    {jsons : List Json}
    (hWritten : toJsonItems items = .ok jsons)
    (hMember : datum ∈ items) :
    ∃ json ∈ jsons, datum.toJson = .ok json := by
  induction items generalizing jsons with
  | nil => cases hMember
  | cons first rest ih =>
      rw [toJsonItems] at hWritten
      simp only [bind_eq_ok_iff, return_eq_ok_iff]
        at hWritten
      rcases hWritten with
        ⟨json, hFirst, others, hRest, rfl⟩
      rcases List.mem_cons.mp hMember with rfl | hLater
      · exact ⟨json, List.mem_cons_self, hFirst⟩
      · rcases ih hRest hLater with ⟨found, hFound, hJson⟩
        exact ⟨found, List.mem_cons_of_mem _ hFound, hJson⟩

end Datum

end SignedMetadata
