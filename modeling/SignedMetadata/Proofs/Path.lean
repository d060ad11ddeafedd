import SignedMetadata.Path
import SignedMetadata.Proofs.Text.Decimal
import SignedMetadata.Proofs.Text.Quoted

/-
  The text of a path tells the path.

  A step starts with a dot, or with a bracket and a quote or
  a digit, so its first characters tell how it is written.
  An identifier ends before the next dot or bracket, a quoted
  name at its closing quote, and a position before the
  bracket behind it.  So the steps can be read back one after
  another, whatever characters their names have.

  Main declarations:
    * `Segment.render_append_inj`
    * `Path.steps`
    * `Path.render_append`
    * `Path.render_inj`
-/

namespace SignedMetadata

------------------------------------------------------------
-- Steps
------------------------------------------------------------

namespace Segment

variable {name other : String}
variable {m n : Nat}
variable {r r' : List Char}

/- An identifier has no other characters. -/
theorem continuesName_of_isPlain
    (hPlain : isPlain name = true) :
    ∀ c ∈ name.toList, continuesName c = true := by
  rw [isPlain] at hPlain
  cases hName : name.toList with
  | nil => simp
  | cons c cs =>
      simp only [hName, Bool.and_eq_true, List.all_eq_true]
        at hPlain
      rw [List.forall_mem_cons]
      refine ⟨?_, hPlain.2⟩
      have hStart := hPlain.1
      simp only [startsName, Bool.or_eq_true] at hStart
      simp only [continuesName, Char.isAlphanum,
        Bool.or_eq_true]
      exact Or.inl (hStart.imp_left Or.inl)

/- An identifier stands behind a dot. -/
theorem toList_render_plain
    (hPlain : isPlain name = true) :
    (render (.field name)).toList = '.' :: name.toList := by
  simp [render, hPlain]

/- Another name stands in quotes between brackets. -/
theorem toList_render_quoted
    (hQuoted : ¬ isPlain name = true) :
    (render (.field name)).toList =
      '[' :: (Text.quoted name).toList ++ [']'] := by
  simp [render, hQuoted]

/- A position stands between brackets. -/
theorem toList_render_index (n : Nat) :
    (render (.index n)).toList =
      '[' :: Nat.toDigits 10 n ++ [']'] := by
  simp [render, Text.ofNatural]

/- A step leaves characters. -/
theorem toList_render_ne_nil (segment : Segment) :
    segment.render.toList ≠ [] := by
  cases segment with
  | field name =>
      by_cases hPlain : isPlain name = true
      · simp [toList_render_plain hPlain]
      · simp [toList_render_quoted hPlain]
  | index n => simp [toList_render_index]

/- The text of a step starts as no identifier goes on. -/
theorem endsRun_render_append
    (segment : Segment)
    (rest : List Char) :
    Text.EndsRun continuesName
      (segment.render.toList ++ rest) := by
  have hDot : continuesName '.' = false := by decide
  have hBracket : continuesName '[' = false := by decide
  cases segment with
  | field name =>
      by_cases hPlain : isPlain name = true
      · rw [toList_render_plain hPlain]
        exact (Text.endsRun_cons _ _ _).mpr hDot
      · rw [toList_render_quoted hPlain]
        exact (Text.endsRun_cons _ _ _).mpr hBracket
  | index n =>
      rw [toList_render_index]
      exact (Text.endsRun_cons _ _ _).mpr hBracket

/- A quoted name does not start as a position does. -/
theorem quoted_append_ne_digits :
    (Text.quoted name).toList ++ r ≠
      Nat.toDigits 10 n ++ r' := by
  cases hDigits : Nat.toDigits 10 n with
  | nil => exact absurd hDigits Nat.toDigits_ne_nil
  | cons d ds =>
      intro hEq
      rw [Text.toList_quoted] at hEq
      have hFirst : '"' = d := List.head_eq_of_cons_eq hEq
      have hDigit :=
        Text.isDigit_toDigits n d (by simp [hDigits])
      rw [← hFirst] at hDigit
      exact absurd hDigit (by decide)

/- Two names with the same text in front are equal. -/
theorem render_field_append_inj
    (hR : Text.EndsRun continuesName r)
    (hR' : Text.EndsRun continuesName r')
    (hEq :
      (render (.field name)).toList ++ r =
        (render (.field other)).toList ++ r') :
    name = other ∧ r = r' := by
  by_cases hName : isPlain name = true
  · rw [toList_render_plain hName] at hEq
    by_cases hOther : isPlain other = true
    · rw [toList_render_plain hOther] at hEq
      rcases Text.run_append_inj
          (continuesName_of_isPlain hName)
          (continuesName_of_isPlain hOther) hR hR'
          (List.tail_eq_of_cons_eq hEq) with
        ⟨hSame, hRest⟩
      exact ⟨String.toList_inj.mp hSame, hRest⟩
    · rw [toList_render_quoted hOther] at hEq
      exact absurd (List.head_eq_of_cons_eq hEq) (by decide)
  · rw [toList_render_quoted hName] at hEq
    by_cases hOther : isPlain other = true
    · rw [toList_render_plain hOther] at hEq
      exact absurd (List.head_eq_of_cons_eq hEq) (by decide)
    · rw [toList_render_quoted hOther] at hEq
      simp only [List.cons_append, List.append_assoc,
        List.cons.injEq, true_and] at hEq
      rcases Text.quoted_append_inj hEq with ⟨hSame, hRest⟩
      exact ⟨hSame, List.tail_eq_of_cons_eq hRest⟩

/- Two positions with the same text in front are equal. -/
theorem render_index_append_inj
    (hEq :
      (render (.index m)).toList ++ r =
        (render (.index n)).toList ++ r') :
    m = n ∧ r = r' := by
  have hBracket : ']'.isDigit = false := by decide
  simp only [toList_render_index, List.cons_append,
    List.append_assoc, List.nil_append, List.cons.injEq,
    true_and] at hEq
  rcases Text.digits_append_inj (Text.isDigit_toDigits m)
      (Text.isDigit_toDigits n)
      ((Text.endsNumeral_cons _ _).mpr hBracket)
      ((Text.endsNumeral_cons _ _).mpr hBracket) hEq with
    ⟨hDigits, hRest⟩
  exact
    ⟨Text.toDigits_inj hDigits,
      List.tail_eq_of_cons_eq hRest⟩

/- A name is not written as a position is. -/
theorem render_field_append_ne_index :
    (render (.field name)).toList ++ r ≠
      (render (.index n)).toList ++ r' := by
  intro hEq
  rw [toList_render_index] at hEq
  by_cases hPlain : isPlain name = true
  · rw [toList_render_plain hPlain] at hEq
    exact absurd (List.head_eq_of_cons_eq hEq) (by decide)
  · rw [toList_render_quoted hPlain] at hEq
    simp only [List.cons_append, List.append_assoc,
      List.cons.injEq, true_and] at hEq
    exact quoted_append_ne_digits hEq

/-
  A step is read back from the text that it starts, when no
  identifier could go on behind it.
-/
theorem render_append_inj
    {s t : Segment}
    (hR : Text.EndsRun continuesName r)
    (hR' : Text.EndsRun continuesName r')
    (hEq : s.render.toList ++ r = t.render.toList ++ r') :
    s = t ∧ r = r' := by
  cases s with
  | field name =>
      cases t with
      | field other =>
          rcases render_field_append_inj hR hR' hEq with
            ⟨hName, hRest⟩
          exact ⟨congrArg field hName, hRest⟩
      | index n =>
          exact absurd hEq render_field_append_ne_index
  | index m =>
      cases t with
      | field other =>
          exact absurd hEq.symm render_field_append_ne_index
      | index n =>
          rcases render_index_append_inj hEq with
            ⟨hPosition, hRest⟩
          exact ⟨congrArg index hPosition, hRest⟩

end Segment

------------------------------------------------------------
-- Paths
------------------------------------------------------------

namespace Path

/- The text of steps, behind that of the place they leave. -/
def steps (path : Path) : String :=
  String.join (path.map Segment.render)

/- The text of a step stands in front of the next. -/
theorem toList_steps_cons
    (segment : Segment)
    (path : Path) :
    (steps (segment :: path)).toList =
      segment.render.toList ++ (steps path).toList := by
  simp [steps]

/- Further steps are written behind a path. -/
theorem render_append (path below : Path) :
    render (path ++ below) = render path ++ steps below := by
  rw [render, List.map_append, String.join_append,
    ← String.append_assoc]
  rfl

/- No identifier goes on into the steps of a path. -/
theorem endsRun_steps (path : Path) :
    Text.EndsRun Segment.continuesName
      (steps path).toList := by
  cases path with
  | nil => simp [steps, Text.EndsRun]
  | cons segment path =>
      rw [toList_steps_cons]
      exact segment.endsRun_render_append _

/- Steps leave characters. -/
theorem toList_steps_cons_ne_nil
    (segment : Segment)
    (path : Path) :
    (steps (segment :: path)).toList ≠ [] := by
  rw [toList_steps_cons]
  exact
    List.append_ne_nil_of_left_ne_nil
      segment.toList_render_ne_nil _

/- Steps are read back one after another. -/
theorem steps_inj
    {p q : Path}
    (hEq : (steps p).toList = (steps q).toList) :
    p = q := by
  induction p generalizing q with
  | nil =>
      cases q with
      | nil => rfl
      | cons t q =>
          exact
            absurd hEq.symm (toList_steps_cons_ne_nil t q)
  | cons s p ih =>
      cases q with
      | nil =>
          exact absurd hEq (toList_steps_cons_ne_nil s p)
      | cons t q =>
          rw [toList_steps_cons, toList_steps_cons] at hEq
          rcases Segment.render_append_inj (endsRun_steps p)
              (endsRun_steps q) hEq with
            ⟨hStep, hRest⟩
          rw [hStep, ih hRest]

/-
  Two paths have the same text only if they are the same
  path: the text says of every step whether it is a name or a
  position, and which.
-/
theorem render_inj {p q : Path} :
    p.render = q.render ↔ p = q := by
  constructor
  · intro hEq
    rw [render, render, String.append_right_inj] at hEq
    exact steps_inj (congrArg String.toList hEq)
  · exact congrArg render

end Path

end SignedMetadata
