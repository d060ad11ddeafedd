import SignedMetadata.Pattern.Regex

/-
  The search finds a regular expression where it matches.

  A match is a part of a text together with the places where
  it begins and stops: an expression is matched by parts that
  follow one another, and a repetition by as many parts as
  its counts allow.  What the search keeps after a character
  matches what may follow that character.

  Main declarations:
    * `Matches`
    * `matchesEmpty_iff`
    * `matches_cons_iff`
    * `matches_oneOrMore_iff`
    * `occursIn_iff`
-/

namespace SignedMetadata

namespace Regex

------------------------------------------------------------
-- Parts of a Text
------------------------------------------------------------

/-
  A property of the parts of a text that depends on whether
  they begin where the text starts, and on whether they stop
  where it ends.
-/
abbrev Reading := Bool → Bool → List Char → Prop

/- A part of one kind and, behind it, one of another kind. -/
def Followed (L M : Reading) : Reading :=
  fun first last cs =>
    ∃ a b, cs = a ++ b ∧
      L first (last && b.isEmpty) a ∧
        M (first && a.isEmpty) last b

/- A number of parts of one kind, one behind the other. -/
def Repeated (L : Reading) : Nat → Reading
| 0 => fun _ _ cs => cs = []
| n + 1 => Followed L (Repeated L n)

/-
  The expression matches the part of a text.  An anchor is
  matched by an empty part at its place.
-/
def Matches : Regex → Reading
| .empty, _, _, cs => cs = []
| .one cls, _, _, cs => ∃ c, cs = [c] ∧ cls.holds c = true
| .seq r s, first, last, cs =>
    Followed (Matches r) (Matches s) first last cs
| .alt r s, first, last, cs =>
    Matches r first last cs ∨ Matches s first last cs
| .times r least greatest, first, last, cs =>
    ∃ n, least ≤ n ∧ (∀ m ∈ greatest, n ≤ m) ∧
      Repeated (Matches r) n first last cs
| .atStart, first, _, cs => first = true ∧ cs = []
| .atEnd, _, last, cs => last = true ∧ cs = []

/- Counts are in order: the least is not the greater one. -/
def InOrder : Regex → Prop
| .seq r s => InOrder r ∧ InOrder s
| .alt r s => InOrder r ∧ InOrder s
| .times r least greatest =>
    (∀ m ∈ greatest, least ≤ m) ∧ InOrder r
| _ => True

variable {L M : Reading}
variable {first last : Bool}
variable {c : Char}
variable {cs : List Char}

------------------------------------------------------------
-- Empty Parts
------------------------------------------------------------

/- An empty part is made of two empty parts. -/
theorem followed_nil_iff :
    Followed L M first last [] ↔
      L first last [] ∧ M first last [] := by
  constructor
  · rintro ⟨a, b, hParts, hFirst, hSecond⟩
    rcases List.append_eq_nil_iff.mp hParts.symm with
      ⟨rfl, rfl⟩
    rw [List.isEmpty_nil, Bool.and_true] at hFirst hSecond
    exact ⟨hFirst, hSecond⟩
  · rintro ⟨hFirst, hSecond⟩
    refine ⟨[], [], rfl, ?_, ?_⟩
    · rw [List.isEmpty_nil, Bool.and_true]
      exact hFirst
    · rw [List.isEmpty_nil, Bool.and_true]
      exact hSecond

/- An empty part is made of any number of empty parts. -/
theorem repeated_nil_iff
    (n : Nat) :
    Repeated L n first last [] ↔
      n = 0 ∨ L first last [] := by
  induction n with
  | zero => exact iff_of_true rfl (Or.inl rfl)
  | succ n ih =>
      rw [Repeated, followed_nil_iff, ih]
      constructor
      · rintro ⟨hFirst, _⟩
        exact Or.inr hFirst
      · rintro (hNone | hFirst)
        · cases hNone
        · exact ⟨hFirst, Or.inr hFirst⟩

/- The empty part is matched where it is said to be. -/
theorem matchesEmpty_iff
    (r : Regex)
    (hOrder : r.InOrder) :
    matchesEmpty first last r = true ↔
      r.Matches first last [] := by
  induction r with
  | empty => exact iff_of_true rfl rfl
  | one cls =>
      apply iff_of_false Bool.false_ne_true
      rintro ⟨c, hNone, _⟩
      cases hNone
  | seq r s ihFirst ihSecond =>
      rw [matchesEmpty, Bool.and_eq_true,
        ihFirst hOrder.1, ihSecond hOrder.2, Matches,
        followed_nil_iff]
  | alt r s ihLeft ihRight =>
      rw [matchesEmpty, Bool.or_eq_true, ihLeft hOrder.1,
        ihRight hOrder.2, Matches]
  | times r least greatest ih =>
      rw [matchesEmpty, Bool.or_eq_true, decide_eq_true_eq,
        ih hOrder.2, Matches]
      constructor
      · intro hEmpty
        exact
          ⟨least, Nat.le_refl least, hOrder.1,
            (repeated_nil_iff least).mpr hEmpty⟩
      · rintro ⟨n, hLeast, _, hParts⟩
        rcases (repeated_nil_iff n).mp hParts with
          rfl | hEmpty
        · exact Or.inl (Nat.le_zero.mp hLeast)
        · exact Or.inr hEmpty
  | atStart => exact (and_iff_left rfl).symm
  | atEnd => exact (and_iff_left rfl).symm

------------------------------------------------------------
-- Parts with a First Character
------------------------------------------------------------

/- The first character lies in one of two parts. -/
theorem followed_cons_iff :
    Followed L M first last (c :: cs) ↔
      (∃ a b, cs = a ++ b ∧
        L first (last && b.isEmpty) (c :: a) ∧
          M false last b) ∨
        L first false [] ∧ M first last (c :: cs) := by
  constructor
  · rintro ⟨a, b, hParts, hFirst, hSecond⟩
    cases a with
    | nil =>
        rw [List.nil_append] at hParts
        subst hParts
        rw [List.isEmpty_nil, Bool.and_true] at hSecond
        rw [List.isEmpty_cons, Bool.and_false] at hFirst
        exact Or.inr ⟨hFirst, hSecond⟩
    | cons d a =>
        rw [List.cons_append, List.cons.injEq] at hParts
        rcases hParts with ⟨rfl, rfl⟩
        rw [List.isEmpty_cons, Bool.and_false] at hSecond
        exact Or.inl ⟨a, b, rfl, hFirst, hSecond⟩
  · rintro (⟨a, b, rfl, hFirst, hSecond⟩ | ⟨hFirst, hSecond⟩)
    · refine ⟨c :: a, b, rfl, hFirst, ?_⟩
      rw [List.isEmpty_cons, Bool.and_false]
      exact hSecond
    · refine ⟨[], c :: cs, rfl, ?_, ?_⟩
      · rw [List.isEmpty_cons, Bool.and_false]
        exact hFirst
      · rw [List.isEmpty_nil, Bool.and_true]
        exact hSecond

/- Empty parts may come before others. -/
theorem Repeated.pad
    {n : Nat}
    (hEmpty : L first false [])
    (hParts : Repeated L n first last (c :: cs))
    (more : Nat) :
    Repeated L (n + more) first last (c :: cs) := by
  induction more with
  | zero => exact hParts
  | succ more ih =>
      exact followed_cons_iff.mpr (Or.inr ⟨hEmpty, ih⟩)

/-
  Some part holds the first character, and those before it
  are empty.
-/
theorem repeated_cons_iff
    (n : Nat) :
    Repeated L n first last (c :: cs) ↔
      ∃ m, (m + 1 = n ∨ m < n ∧ L first false []) ∧
        ∃ a b, cs = a ++ b ∧
          L first (last && b.isEmpty) (c :: a) ∧
            Repeated L m false last b := by
  constructor
  · intro hParts
    induction n with
    | zero => cases hParts
    | succ n ih =>
        rcases followed_cons_iff.mp hParts with
          hHere | ⟨hEmpty, hRest⟩
        · exact ⟨n, Or.inl rfl, hHere⟩
        · rcases ih hRest with ⟨m, hCount, hThere⟩
          refine ⟨m, Or.inr ⟨?_, hEmpty⟩, hThere⟩
          rcases hCount with rfl | ⟨hLess, _⟩
          · omega
          · omega
  · rintro ⟨m, hCount, hHere⟩
    have hParts : Repeated L (m + 1) first last (c :: cs) :=
      followed_cons_iff.mpr (Or.inl hHere)
    rcases hCount with rfl | ⟨hLess, hEmpty⟩
    · exact hParts
    · have hPadded := hParts.pad hEmpty (n - (m + 1))
      rw [Nat.add_sub_of_le hLess] at hPadded
      exact hPadded

------------------------------------------------------------
-- What May Follow
------------------------------------------------------------

/- Counts stay in order after a character. -/
theorem inOrder_after
    (r : Regex)
    (hOrder : r.InOrder) :
    ∀ next ∈ after first c r, next.InOrder := by
  induction r with
  | empty => exact List.forall_mem_nil _
  | one cls =>
      rw [after]
      split
      · exact List.forall_mem_singleton.mpr trivial
      · exact List.forall_mem_nil _
  | seq r s ihFirst ihSecond =>
      have hRest :
          ∀ next ∈
              (after first c r).map fun q => Regex.seq q s,
            next.InOrder := by
        intro next hNext
        rcases List.mem_map.mp hNext with ⟨q, hq, rfl⟩
        exact ⟨ihFirst hOrder.1 q hq, hOrder.2⟩
      rw [after]
      split
      · exact
          List.forall_mem_append.mpr
            ⟨hRest, ihSecond hOrder.2⟩
      · exact hRest
  | alt r s ihLeft ihRight =>
      exact
        List.forall_mem_append.mpr
          ⟨ihLeft hOrder.1, ihRight hOrder.2⟩
  | times r least greatest ih =>
      rw [after]
      split
      · exact List.forall_mem_nil _
      · intro next hNext
        rcases List.mem_map.mp hNext with ⟨q, hq, rfl⟩
        refine ⟨ih hOrder.2 q hq, ?_, hOrder.2⟩
        intro m hm
        rcases Option.map_eq_some_iff.mp hm with
          ⟨n, hn, rfl⟩
        have hLeast := hOrder.1 n hn
        split <;> omega
  | atStart => exact List.forall_mem_nil _
  | atEnd => exact List.forall_mem_nil _

/-
  One of the parts of a repetition holds the character, and
  the parts behind it are a repetition with other counts.
-/
theorem matches_times_cons_iff
    {r : Regex}
    {least : Nat}
    {greatest : Option Nat}
    (hOrder : (Regex.times r least greatest).InOrder) :
    (Regex.times r least greatest).Matches first last
        (c :: cs) ↔
      greatest ≠ some 0 ∧
        ∃ a b, cs = a ++ b ∧
          r.Matches first (last && b.isEmpty) (c :: a) ∧
            (Regex.times r
              (if matchesEmpty first false r then 0
                else least - 1)
              (greatest.map fun n => n - 1)).Matches
                false last b := by
  have hEmpty :
      matchesEmpty first false r = true ↔
        r.Matches first false [] :=
    matchesEmpty_iff r hOrder.2
  constructor
  · rintro ⟨n, hLeast, hGreatest, hParts⟩
    rcases (repeated_cons_iff n).mp hParts with
      ⟨m, hCount, a, b, hSplit, hHere, hBehind⟩
    have hLess : m + 1 ≤ n := by
      rcases hCount with rfl | ⟨hLess, _⟩
      · exact Nat.le_refl _
      · exact hLess
    constructor
    · intro hNone
      have hZero := hGreatest 0 hNone
      omega
    · refine ⟨a, b, hSplit, hHere, m, ?_, ?_, hBehind⟩
      · rcases hCount with rfl | ⟨_, hFirst⟩
        · split <;> omega
        · rw [if_pos (hEmpty.mpr hFirst)]
          exact Nat.zero_le m
      · intro k hk
        rcases Option.map_eq_some_iff.mp hk with ⟨n', hn', rfl⟩
        have hMost := hGreatest n' hn'
        omega
  · rintro ⟨hSome, a, b, hSplit, hHere, m, hLeast, hGreatest,
      hBehind⟩
    have hMost : ∀ n ∈ greatest, m + 1 ≤ n := by
      intro n hn
      have hPositive : n ≠ 0 := by
        rintro rfl
        exact hSome hn
      have hLess :=
        hGreatest (n - 1)
          (Option.map_eq_some_iff.mpr ⟨n, hn, rfl⟩)
      omega
    by_cases hFirst : matchesEmpty first false r = true
    · -- Empty parts make up for what the counts require.
      refine ⟨max (m + 1) least, Nat.le_max_right _ _, ?_, ?_⟩
      · intro n hn
        exact Nat.max_le.mpr ⟨hMost n hn, hOrder.1 n hn⟩
      · apply (repeated_cons_iff _).mpr
        refine ⟨m, ?_, a, b, hSplit, hHere, hBehind⟩
        refine Or.inr ⟨?_, hEmpty.mp hFirst⟩
        exact Nat.le_max_left (m + 1) least
    · rw [if_neg hFirst] at hLeast
      refine ⟨m + 1, by omega, hMost, ?_⟩
      apply (repeated_cons_iff _).mpr
      exact ⟨m, Or.inl rfl, a, b, hSplit, hHere, hBehind⟩

/- What may follow is matched before what comes behind. -/
theorem exists_seq_iff
    {nexts : List Regex}
    {s : Regex} :
    (∃ next ∈ nexts.map fun q => Regex.seq q s,
      next.Matches false last cs) ↔
      ∃ a b, cs = a ++ b ∧
        (∃ q ∈ nexts,
          q.Matches false (last && b.isEmpty) a) ∧
          s.Matches false last b := by
  constructor
  · rintro ⟨next, hNext, hMatches⟩
    rcases List.mem_map.mp hNext with ⟨q, hq, rfl⟩
    rcases hMatches with ⟨a, b, hSplit, hFirst, hSecond⟩
    rw [Bool.false_and] at hSecond
    exact ⟨a, b, hSplit, ⟨q, hq, hFirst⟩, hSecond⟩
  · rintro ⟨a, b, hSplit, ⟨q, hq, hFirst⟩, hSecond⟩
    refine
      ⟨.seq q s, List.mem_map.mpr ⟨q, hq, rfl⟩, a, b, hSplit,
        hFirst, ?_⟩
    rw [Bool.false_and]
    exact hSecond

/-
  The expression matches a part exactly if something that may
  follow its first character matches the rest of the part.
-/
theorem matches_cons_iff
    (r : Regex)
    (hOrder : r.InOrder) :
    r.Matches first last (c :: cs) ↔
      ∃ next ∈ after first c r,
        next.Matches false last cs := by
  induction r generalizing first last cs with
  | empty =>
      apply iff_of_false
      · exact List.cons_ne_nil c cs
      · rintro ⟨next, hNone, _⟩
        cases hNone
  | one cls =>
      rw [Matches, after]
      constructor
      · rintro ⟨d, hChar, hHolds⟩
        rw [List.cons.injEq] at hChar
        rw [hChar.1, if_pos hHolds]
        exact ⟨.empty, List.mem_singleton.mpr rfl, hChar.2⟩
      · rintro ⟨next, hNext, hRest⟩
        split at hNext
        · rename_i hHolds
          rw [List.mem_singleton.mp hNext] at hRest
          exact ⟨c, congrArg (c :: ·) hRest, hHolds⟩
        · cases hNext
  | seq r s ihFirst ihSecond =>
      have hEmpty :
          matchesEmpty first false r = true ↔
            r.Matches first false [] :=
        matchesEmpty_iff r hOrder.1
      rw [Matches, followed_cons_iff, ← hEmpty,
        ihSecond hOrder.2, after]
      simp only [ihFirst hOrder.1]
      rw [← exists_seq_iff]
      by_cases hFirst : matchesEmpty first false r = true
      · rw [if_pos hFirst]
        simp only [hFirst, true_and, List.mem_append,
          or_and_right, exists_or]
      · rw [if_neg hFirst]
        exact or_iff_left fun h => hFirst h.1
  | alt r s ihLeft ihRight =>
      rw [Matches, ihLeft hOrder.1, ihRight hOrder.2, after]
      simp only [List.mem_append, or_and_right, exists_or]
  | times r least greatest ih =>
      rw [matches_times_cons_iff hOrder, after]
      simp only [ih hOrder.2]
      rw [← exists_seq_iff]
      by_cases hNone : greatest = some 0
      · rw [if_pos hNone]
        apply iff_of_false
        · exact fun h => h.1 hNone
        · rintro ⟨next, hNext, _⟩
          cases hNext
      · rw [if_neg hNone]
        exact and_iff_right hNone
  | atStart =>
      apply iff_of_false
      · rintro ⟨_, hNone⟩
        cases hNone
      · rintro ⟨next, hNone, _⟩
        cases hNone
  | atEnd =>
      apply iff_of_false
      · rintro ⟨_, hNone⟩
        cases hNone
      · rintro ⟨next, hNone, _⟩
        cases hNone

------------------------------------------------------------
-- Characters of One Class
------------------------------------------------------------

/- A number of characters, all of a class. -/
theorem repeated_one_iff
    {cls : Text.CodePointRanges}
    (n : Nat) :
    Repeated (Matches (.one cls)) n first last cs ↔
      cs.length = n ∧ ∀ c ∈ cs, cls.holds c = true := by
  induction n generalizing first cs with
  | zero =>
      rw [Repeated, List.length_eq_zero_iff]
      constructor
      · rintro rfl
        exact ⟨rfl, List.forall_mem_nil _⟩
      · exact And.left
  | succ n ih =>
      constructor
      · rintro ⟨a, b, rfl, ⟨c, rfl, hHere⟩, hBehind⟩
        rcases ih.mp hBehind with ⟨hLength, hAll⟩
        rw [List.singleton_append]
        exact
          ⟨congrArg Nat.succ hLength,
            List.forall_mem_cons.mpr ⟨hHere, hAll⟩⟩
      · rintro ⟨hLength, hAll⟩
        cases cs with
        | nil => cases hLength
        | cons c cs =>
            rw [List.forall_mem_cons] at hAll
            exact
              ⟨[c], cs, rfl, ⟨c, rfl, hAll.1⟩,
                ih.mpr ⟨Nat.succ.inj hLength, hAll.2⟩⟩

/- One or more characters, all of a class. -/
theorem matches_oneOrMore_iff
    {cls : Text.CodePointRanges} :
    (Regex.times (.one cls) 1 none).Matches first last cs ↔
      cs ≠ [] ∧ ∀ c ∈ cs, cls.holds c = true := by
  rw [Matches]
  simp only [repeated_one_iff]
  constructor
  · rintro ⟨n, hLeast, _, rfl, hAll⟩
    exact ⟨List.ne_nil_of_length_pos hLeast, hAll⟩
  · rintro ⟨hSome, hAll⟩
    refine
      ⟨cs.length, List.length_pos_iff.mpr hSome, ?_, rfl,
        hAll⟩
    rintro m ⟨⟩

/- An exact number of characters, all of a class. -/
theorem matches_exactly_iff
    {cls : Text.CodePointRanges}
    (n : Nat) :
    (Regex.times (.one cls) n (some n)).Matches first last
        cs ↔
      cs.length = n ∧ ∀ c ∈ cs, cls.holds c = true := by
  rw [Matches, ← repeated_one_iff]
  constructor
  · rintro ⟨m, hLeast, hGreatest, hParts⟩
    have hSame := Nat.le_antisymm (hGreatest n rfl) hLeast
    rw [hSame] at hParts
    exact hParts
  · intro hParts
    refine ⟨n, Nat.le_refl n, ?_, hParts⟩
    rintro m ⟨⟩
    exact Nat.le_refl n

------------------------------------------------------------
-- Searching
------------------------------------------------------------

/- The expression matches a part from here on. -/
def Starts (r : Regex) (first : Bool) (cs : List Char) : Prop :=
  ∃ a b, cs = a ++ b ∧ r.Matches first b.isEmpty a

/- The expression matches a part somewhere from here on. -/
def Occurs (r : Regex) (first : Bool) (cs : List Char) : Prop :=
  ∃ before rest, cs = before ++ rest ∧
    r.Starts (first && before.isEmpty) rest

variable {r : Regex}

/- At the end of a text only an empty part is left. -/
theorem starts_nil_iff
    (hOrder : r.InOrder) :
    r.Starts first [] ↔ matchesEmpty first true r = true := by
  rw [matchesEmpty_iff r hOrder]
  constructor
  · rintro ⟨a, b, hParts, hMatches⟩
    rcases List.append_eq_nil_iff.mp hParts.symm with
      ⟨rfl, rfl⟩
    exact hMatches
  · intro hMatches
    exact ⟨[], [], rfl, hMatches⟩

/- A part is empty or goes on behind its first character. -/
theorem starts_cons_iff
    (hOrder : r.InOrder) :
    r.Starts first (c :: cs) ↔
      matchesEmpty first false r = true ∨
        ∃ next ∈ after first c r, next.Starts false cs := by
  rw [matchesEmpty_iff r hOrder]
  constructor
  · rintro ⟨a, b, hParts, hMatches⟩
    cases a with
    | nil =>
        rw [List.nil_append] at hParts
        subst hParts
        exact Or.inl hMatches
    | cons d a =>
        rw [List.cons_append, List.cons.injEq] at hParts
        rcases hParts with ⟨rfl, rfl⟩
        rcases (matches_cons_iff r hOrder).mp hMatches with
          ⟨next, hNext, hRest⟩
        exact Or.inr ⟨next, hNext, a, b, rfl, hRest⟩
  · rintro (hEmpty | ⟨next, hNext, a, b, rfl, hRest⟩)
    · exact ⟨[], c :: cs, rfl, hEmpty⟩
    · refine ⟨c :: a, b, rfl, ?_⟩
      exact
        (matches_cons_iff r hOrder).mpr ⟨next, hNext, hRest⟩

/- A part that occurs at the end of a text starts there. -/
theorem occurs_nil_iff :
    r.Occurs first [] ↔ r.Starts first [] := by
  constructor
  · rintro ⟨before, rest, hParts, hStarts⟩
    rcases List.append_eq_nil_iff.mp hParts.symm with
      ⟨rfl, rfl⟩
    rw [List.isEmpty_nil, Bool.and_true] at hStarts
    exact hStarts
  · intro hStarts
    refine ⟨[], [], rfl, ?_⟩
    rw [List.isEmpty_nil, Bool.and_true]
    exact hStarts

/- A part starts here or occurs behind the next character. -/
theorem occurs_cons_iff :
    r.Occurs first (c :: cs) ↔
      r.Starts first (c :: cs) ∨ r.Occurs false cs := by
  constructor
  · rintro ⟨before, rest, hParts, hStarts⟩
    cases before with
    | nil =>
        rw [List.nil_append] at hParts
        subst hParts
        rw [List.isEmpty_nil, Bool.and_true] at hStarts
        exact Or.inl hStarts
    | cons d before =>
        rw [List.cons_append, List.cons.injEq] at hParts
        rcases hParts with ⟨rfl, rfl⟩
        rw [List.isEmpty_cons, Bool.and_false] at hStarts
        refine Or.inr ⟨before, rest, rfl, ?_⟩
        rw [Bool.false_and]
        exact hStarts
  · rintro (hStarts | ⟨before, rest, rfl, hStarts⟩)
    · refine ⟨[], c :: cs, rfl, ?_⟩
      rw [List.isEmpty_nil, Bool.and_true]
      exact hStarts
    · rw [Bool.false_and] at hStarts
      refine ⟨c :: before, rest, rfl, ?_⟩
      rw [List.isEmpty_cons, Bool.and_false]
      exact hStarts

/- The search goes on with what may follow the character. -/
theorem search_iff
    (hOrder : r.InOrder)
    (opened : List Regex)
    (hOpened : ∀ q ∈ opened, q.InOrder) :
    search r first opened cs = true ↔
      (∃ q ∈ opened, q.Starts first cs) ∨
        r.Occurs first cs := by
  have hAll : ∀ q ∈ r :: opened, q.InOrder :=
    List.forall_mem_cons.mpr ⟨hOrder, hOpened⟩
  induction cs generalizing first opened with
  | nil =>
      have hEmpty :
          (∃ q ∈ r :: opened,
              matchesEmpty first true q = true) ↔
            ∃ q ∈ r :: opened, q.Starts first [] := by
        apply exists_congr
        intro q
        apply and_congr_right
        intro hq
        exact (starts_nil_iff (hAll q hq)).symm
      rw [search, List.any_eq_true, hEmpty, occurs_nil_iff]
      simp only [List.mem_cons, exists_eq_or_imp]
      exact or_comm
  | cons c cs ih =>
      let nexts :=
        distinct ((r :: opened).flatMap (after first c))
      have hNexts :
          ∀ q ∈ nexts, q.InOrder := by
        intro q hq
        rw [mem_distinct, List.mem_flatMap] at hq
        rcases hq with ⟨o, ho, hq⟩
        exact inOrder_after o (hAll o ho) q hq
      have hStarts :
          (∃ q ∈ r :: opened, q.Starts first (c :: cs)) ↔
            (∃ q ∈ r :: opened,
                matchesEmpty first false q = true) ∨
              ∃ q ∈ nexts, q.Starts false cs := by
        simp only [nexts, mem_distinct, List.mem_flatMap]
        constructor
        · rintro ⟨o, ho, hHere⟩
          rcases (starts_cons_iff (hAll o ho)).mp hHere with
            hEmpty | ⟨q, hq, hThere⟩
          · exact Or.inl ⟨o, ho, hEmpty⟩
          · exact Or.inr ⟨q, ⟨o, ho, hq⟩, hThere⟩
        · rintro (⟨o, ho, hEmpty⟩ | ⟨q, ⟨o, ho, hq⟩, hThere⟩)
          · exact
              ⟨o, ho,
                (starts_cons_iff (hAll o ho)).mpr
                  (Or.inl hEmpty)⟩
          · exact
              ⟨o, ho,
                (starts_cons_iff (hAll o ho)).mpr
                  (Or.inr ⟨q, hq, hThere⟩)⟩
      have hRest :
          search r false nexts cs = true ↔
            (∃ q ∈ nexts, q.Starts false cs) ∨
              r.Occurs false cs :=
        ih nexts hNexts
          (List.forall_mem_cons.mpr ⟨hOrder, hNexts⟩)
      rw [search, Bool.or_eq_true, List.any_eq_true, hRest,
        ← or_assoc, ← hStarts, occurs_cons_iff]
      simp only [List.mem_cons, exists_eq_or_imp]
      rw [or_assoc]
      exact or_left_comm

/-
  The search succeeds exactly if the expression matches some
  part of the text at its place.
-/
theorem occursIn_iff
    (hOrder : r.InOrder)
    {text : String} :
    r.occursIn text = true ↔
      ∃ before part behind,
        text.toList = before ++ (part ++ behind) ∧
          r.Matches before.isEmpty behind.isEmpty part := by
  rw [occursIn, search_iff hOrder [] (List.forall_mem_nil _)]
  constructor
  · rintro (⟨q, hNone, _⟩ | hOccurs)
    · cases hNone
    · rcases hOccurs with
        ⟨before, rest, hText, part, behind, rfl, hMatches⟩
      rw [Bool.true_and] at hMatches
      exact ⟨before, part, behind, hText, hMatches⟩
  · rintro ⟨before, part, behind, hText, hMatches⟩
    refine
      Or.inr
        ⟨before, part ++ behind, hText, part, behind, rfl, ?_⟩
    rw [Bool.true_and]
    exact hMatches

end Regex

end SignedMetadata
