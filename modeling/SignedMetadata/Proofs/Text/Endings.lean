/-
  Parts of a text that say where they end.

  A run of characters of one kind ends before the first
  character of another kind.  Characters that are coded one
  after another end at a mark that starts no code.  Two texts
  that begin with such a part and agree have the same part,
  and agree behind it.

  Main declarations:
    * `EndsRun`
    * `run_append_inj`
    * `coded_append_inj`
-/

namespace SignedMetadata.Text

------------------------------------------------------------
-- Runs of One Kind
------------------------------------------------------------

variable {kind : Char → Bool}
variable {cs ds r r' : List Char}

/- No character of the kind stands where a run ends. -/
def EndsRun (kind : Char → Bool) (rest : List Char) : Prop :=
  ∀ c ∈ rest.head?, kind c = false

/- A run ends before a character of another kind. -/
theorem endsRun_cons
    (kind : Char → Bool)
    (c : Char)
    (rest : List Char) :
    EndsRun kind (c :: rest) ↔ kind c = false := by
  simp [EndsRun]

/-
  Two runs with the same text in front of them are the same
  run, when no character of the kind follows either.
-/
theorem run_append_inj
    (hCs : ∀ c ∈ cs, kind c = true)
    (hDs : ∀ d ∈ ds, kind d = true)
    (hR : EndsRun kind r)
    (hR' : EndsRun kind r')
    (hEq : cs ++ r = ds ++ r') :
    cs = ds ∧ r = r' := by
  induction cs generalizing ds with
  | nil =>
      cases ds with
      | nil => exact ⟨rfl, hEq⟩
      | cons d ds =>
          rw [List.nil_append, List.cons_append] at hEq
          rw [hEq, endsRun_cons, hDs d List.mem_cons_self]
            at hR
          cases hR
  | cons c cs ih =>
      cases ds with
      | nil =>
          rw [List.nil_append, List.cons_append] at hEq
          rw [← hEq, endsRun_cons, hCs c List.mem_cons_self]
            at hR'
          cases hR'
      | cons d ds =>
          rw [List.cons_append, List.cons_append,
            List.cons.injEq] at hEq
          rw [List.forall_mem_cons] at hCs hDs
          have hTail := ih hCs.2 hDs.2 hEq.2
          exact ⟨by rw [hEq.1, hTail.1], hTail.2⟩

------------------------------------------------------------
-- Characters in Code
------------------------------------------------------------

/-
  Two texts in a code that is read back one character after
  another are the same text, when a mark follows both that no
  code starts with.
-/
theorem coded_append_inj
    {code : Char → List Char}
    {mark : Char}
    (hCode :
      ∀ {c d s s'},
        code c ++ s = code d ++ s' → c = d ∧ s = s')
    (hMark : ∀ c s s', code c ++ s ≠ mark :: s')
    (hEq :
      cs.flatMap code ++ mark :: r =
        ds.flatMap code ++ mark :: r') :
    cs = ds ∧ r = r' := by
  induction cs generalizing ds with
  | nil =>
      cases ds with
      | nil => exact ⟨rfl, List.tail_eq_of_cons_eq hEq⟩
      | cons d ds =>
          rw [List.flatMap_cons, List.append_assoc] at hEq
          exact absurd hEq.symm (hMark d _ r)
  | cons c cs ih =>
      cases ds with
      | nil =>
          rw [List.flatMap_cons, List.append_assoc] at hEq
          exact absurd hEq (hMark c _ r')
      | cons d ds =>
          rw [List.flatMap_cons, List.flatMap_cons,
            List.append_assoc, List.append_assoc] at hEq
          have hHead := hCode hEq
          have hTail := ih hHead.2
          exact ⟨by rw [hHead.1, hTail.1], hTail.2⟩

end SignedMetadata.Text
