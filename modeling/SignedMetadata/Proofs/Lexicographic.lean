import Mathlib.Tactic.Tauto

/-
  Lists in lexicographic order.

  The first elements that differ decide.  So parts of equal
  lengths are compared one after another.

  Main declarations:
    * `append_lt_append_iff`
-/

namespace SignedMetadata

variable {α : Type}
variable [LT α]

/- Of parts with equal lengths, the first that differ decide. -/
theorem append_lt_append_iff
    {front front' rest rest' : List α}
    (hLength : front.length = front'.length) :
    front ++ rest < front' ++ rest' ↔
      front < front' ∨ front = front' ∧ rest < rest' := by
  induction front generalizing front' with
  | nil =>
      rw [List.eq_nil_of_length_eq_zero hLength.symm]
      simp
  | cons a front ih =>
      cases front' with
      | nil => cases hLength
      | cons b front' =>
          rw [List.cons_append, List.cons_append,
            List.cons_lt_cons_iff, List.cons_lt_cons_iff,
            ih (Nat.succ.inj hLength), List.cons.injEq]
          tauto

end SignedMetadata
