import SignedMetadata.Reading.Json

/-
  Computations that end in a result or a failure.

  A sequence of steps has a result exactly when every step
  has one.  Readers of trees are such sequences, and the laws
  here open them one step at a time.

  Main declarations:
    * `bind_eq_ok_iff`
    * `bind_eq_error_iff`
    * `check_eq_ok_iff`
    * `guard_eq_ok_iff`
    * `FailsAlike.bind`
    * `whenClosed_eq_ok_iff`
    * `ofDocument_eq_ok_iff`
-/

namespace SignedMetadata

namespace Fallible

variable {ε δ α β : Type}

------------------------------------------------------------
-- Steps
------------------------------------------------------------

/- Two steps have a result if each of them has one. -/
theorem bind_eq_ok_iff
    {first : Except ε α}
    {next : α → Except ε β}
    {b : β} :
    (first >>= next) = .ok b ↔
      ∃ a, first = .ok a ∧ next a = .ok b := by
  cases first with
  | error cause =>
      constructor
      · rintro ⟨⟩
      · rintro ⟨a, ⟨⟩, _⟩
  | ok a =>
      constructor
      · intro hNext
        exact ⟨a, rfl, hNext⟩
      · rintro ⟨a', hFirst, hNext⟩
        cases hFirst
        exact hNext

/- Two steps fail as the first of them that does. -/
theorem bind_eq_error_iff
    {first : Except ε α}
    {next : α → Except ε β}
    {cause : ε} :
    (first >>= next) = .error cause ↔
      first = .error cause ∨
        ∃ a, first = .ok a ∧ next a = .error cause := by
  cases first with
  | error other =>
      constructor
      · intro hFirst
        cases hFirst
        exact Or.inl rfl
      · rintro (hFirst | ⟨a, hFirst, _⟩)
        · cases hFirst
          rfl
        · cases hFirst
  | ok a =>
      constructor
      · intro hNext
        exact Or.inr ⟨a, rfl, hNext⟩
      · rintro (hFirst | ⟨b, hFirst, hNext⟩)
        · cases hFirst
        · cases hFirst
          exact hNext

/- A check comes before a step if it has succeeded. -/
theorem check_eq_ok_iff
    {check : Except ε Unit}
    {next : Unit → Except ε β}
    {b : β} :
    (check >>= next) = .ok b ↔
      check = .ok () ∧ next () = .ok b := by
  rw [bind_eq_ok_iff]
  constructor
  · rintro ⟨⟨⟩, hCheck, hNext⟩
    exact ⟨hCheck, hNext⟩
  · rintro ⟨hCheck, hNext⟩
    exact ⟨(), hCheck, hNext⟩

/- The last step returns its value. -/
theorem return_eq_ok_iff
    {a b : α} :
    (pure a : Except ε α) = .ok b ↔ a = b := by
  constructor
  · exact Except.ok.inj
  · exact congrArg Except.ok

/- Steps go on after a check that did not fail. -/
theorem guard_eq_ok_iff
    {fails : Prop}
    [Decidable fails]
    {cause : ε}
    {next : PUnit → Except ε β}
    {b : β} :
    (if fails then Except.error cause >>= next
      else next PUnit.unit) = .ok b ↔
      ¬ fails ∧ next PUnit.unit = .ok b := by
  by_cases hFails : fails
  · rw [if_pos hFails]
    constructor
    · rintro ⟨⟩
    · rintro ⟨hPasses, _⟩
      exact absurd hFails hPasses
  · rw [if_neg hFails]
    exact (and_iff_right hFails).symm

/- Two computations fail alike, whatever their results. -/
def FailsAlike
    (first : Except ε α)
    (second : Except ε β) : Prop :=
  ∀ cause, first = .error cause ↔ second = .error cause

/- Every computation fails like itself. -/
theorem FailsAlike.refl
    (computed : Except ε α) :
    FailsAlike computed computed := by
  intro cause
  exact Iff.rfl

/- Computations with results do not fail. -/
theorem FailsAlike.of_ok
    (a : α)
    (b : β) :
    FailsAlike (.ok a : Except ε α) (.ok b) := by
  intro cause
  exact iff_of_false (by rintro ⟨⟩) (by rintro ⟨⟩)

/- Computations with the same failure fail alike. -/
theorem FailsAlike.of_error
    (fault : ε) :
    FailsAlike
      (.error fault : Except ε α)
      (.error fault : Except ε β) := by
  intro cause
  rw [Except.error.injEq, Except.error.injEq]

/- Steps fail alike if all of them do. -/
theorem FailsAlike.bind
    {γ φ : Type}
    {first : Except ε α}
    {second : Except ε β}
    {next : α → Except ε γ}
    {following : β → Except ε φ}
    (hFirst : FailsAlike first second)
    (hNext :
      ∀ a b, FailsAlike (next a) (following b)) :
    FailsAlike (first >>= next) (second >>= following) := by
  cases first with
  | error fault =>
      rw [(hFirst fault).mp rfl]
      exact .of_error fault
  | ok a =>
      cases second with
      | error fault => cases (hFirst fault).mpr rfl
      | ok b => exact hNext a b

/- What fails alike has a result if the other one has. -/
theorem FailsAlike.exists_ok
    {first : Except ε α}
    {second : Except ε β}
    {a : α}
    (hAlike : FailsAlike first second)
    (hFirst : first = .ok a) :
    ∃ b, second = .ok b := by
  cases hSecond : second with
  | ok b => exact ⟨b, rfl⟩
  | error fault =>
      rw [(hAlike fault).mpr hSecond] at hFirst
      cases hFirst

/- Naming a failure keeps the results. -/
theorem mapError_eq_ok_iff
    {name : ε → δ}
    {computed : Except ε α}
    {a : α} :
    computed.mapError name = .ok a ↔ computed = .ok a := by
  cases computed with
  | error cause =>
      constructor
      · rintro ⟨⟩
      · rintro ⟨⟩
  | ok b =>
      have hName :
          (Except.ok b : Except ε α).mapError name =
            .ok b := by
        rfl
      rw [hName, Except.ok.injEq, Except.ok.injEq]

/- Naming the failure of steps names that of each step. -/
theorem mapError_bind
    {name : ε → δ}
    (first : Except ε α)
    (next : α → Except ε β) :
    (first >>= next).mapError name =
      first.mapError name >>= fun a =>
        (next a).mapError name := by
  cases first <;> rfl

end Fallible

namespace Json

/- A container has a result when its text is complete. -/
theorem whenClosed_eq_ok_iff
    {α : Type}
    {closed : Bool}
    {result a : α} :
    whenClosed closed result = .ok a ↔
      closed = true ∧ result = a := by
  cases closed <;> simp [whenClosed]

/-
  A reader has a result for a document when it has one for
  the root and nothing follows.
-/
theorem ofDocument_eq_ok_iff
    {α : Type}
    (read : Tree → Except ReadError α)
    {document : Document}
    {a : α} :
    (do
        let result ← read document.root
        whenClosed (!document.trailing) result) = .ok a ↔
      document.trailing = false ∧
        read document.root = .ok a := by
  simp only [Fallible.bind_eq_ok_iff, whenClosed_eq_ok_iff,
    Bool.not_eq_true']
  constructor
  · rintro ⟨_, hRead, hEnd, rfl⟩
    exact ⟨hEnd, hRead⟩
  · rintro ⟨hEnd, hRead⟩
    exact ⟨a, hRead, hEnd, rfl⟩

end Json

end SignedMetadata
