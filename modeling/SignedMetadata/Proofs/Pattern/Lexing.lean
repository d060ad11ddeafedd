import SignedMetadata.Pattern.Basic

/-
  Lexemes do not depend on what closes a group around them.

  A reader that takes something from the front of a text may
  look at the characters behind it.  If a right parenthesis
  and an anchor are put behind the text, every reader of the
  lexemes of patterns still takes the same from it.

  Main declarations:
    * `Expression.Local`
    * `CharClass.local_read?`
    * `Expression.local_lexeme?`
    * `Expression.lexemes?_append`
-/

namespace SignedMetadata

namespace Expression

------------------------------------------------------------
-- Local Readers
------------------------------------------------------------

/- What is put behind the source of a pattern. -/
def closing : List Char := [')', '$']

/- The reader takes the same if the group is closed behind. -/
def Local
    {α : Type}
    (read : List Char → Option (α × List Char)) : Prop :=
  ∀ cs a rest, read cs = some (a, rest) →
    read (cs ++ closing) = some (a, rest ++ closing)

variable {p : Char → Bool}
variable {cs : List Char}

/- What is kept ends before what is left. -/
theorem takeWhile_append_closing
    (hLeft : cs.dropWhile p ≠ [] ∨ p ')' = false) :
    (cs ++ closing).takeWhile p = cs.takeWhile p := by
  induction cs with
  | nil =>
      rcases hLeft with hNone | hStop
      · exact absurd rfl hNone
      · rw [List.nil_append, closing,
          List.takeWhile_cons_of_neg (by rw [hStop]; simp)]
        rfl
  | cons c cs ih =>
      rw [List.cons_append, List.takeWhile_cons,
        List.takeWhile_cons]
      by_cases hChar : p c = true
      · rw [if_pos hChar, if_pos hChar, ih]
        rw [List.dropWhile_cons_of_pos hChar] at hLeft
        exact hLeft
      · rw [if_neg hChar, if_neg hChar]

/- What is left is left with what comes behind. -/
theorem dropWhile_append_closing
    (hLeft : cs.dropWhile p ≠ [] ∨ p ')' = false) :
    (cs ++ closing).dropWhile p =
      cs.dropWhile p ++ closing := by
  rw [List.dropWhile_append]
  split
  · rename_i hEmpty
    have hNone := List.isEmpty_iff.mp hEmpty
    rcases hLeft with hSome | hStop
    · exact absurd hNone hSome
    · rw [hNone, closing,
        List.dropWhile_cons_of_neg (by rw [hStop]; simp)]
      rfl
  · rfl

end Expression

------------------------------------------------------------
-- Classes
------------------------------------------------------------

namespace CharClass

open Expression (Local closing takeWhile_append_closing
  dropWhile_append_closing)

/- A character without a backslash stands for itself. -/
theorem primitive?_of_ne
    {c : Char}
    (hPlain : c ≠ '\\')
    (cs : List Char) :
    primitive? (c :: cs) = some (.character c, cs) := by
  cases cs with
  | nil => simp [primitive?, hPlain]
  | cons d cs => simp [primitive?, hPlain]

/- A primitive is taken without a look behind it. -/
theorem local_primitive? : Local primitive? := by
  intro cs p rest hRead
  cases cs with
  | nil => cases hRead
  | cons c cs =>
      by_cases hPlain : c = '\\'
      · subst hPlain
        cases cs with
        | nil => cases hRead
        | cons d cs =>
            rcases Option.map_eq_some_iff.mp hRead with
              ⟨q, hEscape, hSame⟩
            cases hSame
            rw [List.cons_append, List.cons_append,
              primitive?, hEscape]
            rfl
      · rw [primitive?_of_ne hPlain] at hRead
        cases hRead
        rw [List.cons_append, primitive?_of_ne hPlain]

/- A dash leads to the other end of a range. -/
def leadsOn : List Char → Bool
| '-' :: ']' :: _ => false
| '-' :: '-' :: _ => false
| '-' :: _ => true
| _ => false

/- The range from a primitive to the next one. -/
def range? (low : Primitive) (cs : List Char) :
    Option (Part × List Char) :=
  match low, primitive? cs with
  | .character a, some (.character b, rest) =>
      if a ≤ b then some (⟨[(a.toNat, b.toNat)], 0⟩, rest)
      else none
  | _, _ => none

/- The item that a primitive starts. -/
theorem item?_eq
    {cs rest : List Char}
    {low : Primitive}
    (hLow : primitive? cs = some (low, rest)) :
    item? cs =
      if leadsOn rest then range? low rest.tail
      else some (⟨low.ranges, 0⟩, rest) := by
  simp only [item?, hLow]
  unfold leadsOn
  split
  · rfl
  · rfl
  · rename_i more _ _
    cases low with
    | decimalDigit => simp [range?]
    | character a =>
        simp only [List.tail_cons, if_true]
        unfold range?
        cases primitive? more with
        | none => rfl
        | some read =>
            rcases read with ⟨high, rest⟩
            cases high <;> rfl
  · simp

/- The end of a range is taken without a look behind it. -/
theorem local_range? (low : Primitive) :
    Local (range? low) := by
  intro cs part rest hRead
  unfold range? at hRead ⊢
  split at hRead
  · rename_i hHigh
    rw [local_primitive? _ _ _ hHigh]
    split at hRead
    · rename_i hOrder
      cases hRead
      exact if_pos hOrder
    · cases hRead
  · cases hRead

/- Whether it does is seen before the group is closed. -/
theorem leadsOn_append
    {cs : List Char}
    (hMore : cs ≠ ['-']) :
    leadsOn (cs ++ Expression.closing) = leadsOn cs := by
  match cs with
  | [] => rfl
  | [c] =>
      have hDash : c ≠ '-' := by
        rintro rfl
        exact hMore rfl
      simp [leadsOn, hDash]
  | c :: d :: cs =>
      by_cases hDash : c = '-'
      · by_cases hEnd : d = ']'
        · rw [hDash, hEnd]
          rfl
        · by_cases hSign : d = '-'
          · rw [hDash, hSign]
            rfl
          · simp [leadsOn, hDash, hEnd, hSign]
      · simp [leadsOn, hDash]

/- An item is taken with a look at a dash only. -/
theorem local_item? : Local item? := by
  intro cs part rest hRead
  cases hLow : primitive? cs with
  | none =>
      rw [item?, hLow] at hRead
      cases hRead
  | some read =>
      rcases read with ⟨low, more⟩
      rw [item?_eq hLow] at hRead
      rw [item?_eq (local_primitive? _ _ _ hLow)]
      by_cases hMore : more = ['-']
      · subst hMore
        cases low <;> cases hRead
      · rw [leadsOn_append hMore]
        split at hRead
        · rename_i hRange
          rw [if_pos hRange]
          cases more with
          | nil => cases hRange
          | cons c more => exact local_range? low _ _ _ hRead
        · rename_i hRange
          rw [if_neg hRange]
          cases hRead
          rfl

/- What comes behind is added to what is left. -/
def leaving
    {α : Type}
    (behind : List Char)
    (read : Option (α × List Char)) :
    Option (α × List Char) :=
  read.map fun (a, rest) => (a, rest ++ behind)

/- Whether a class has a sign, and what follows it. -/
def signed (cs : List Char) : Bool × List Char :=
  match cs with
  | '^' :: rest => (true, rest)
  | rest => (false, rest)

/- The sign is seen before the group is closed. -/
theorem signed_append (cs : List Char) :
    signed (cs ++ closing) =
      ((signed cs).1, (signed cs).2 ++ closing) := by
  cases cs with
  | nil => rfl
  | cons c cs =>
      by_cases hSign : c = '^'
      · subst hSign
        rfl
      · simp [signed, hSign]

/- The class of a name behind its sign. -/
def namedBehind
    (negated : Bool)
    (cs : List Char) : Option (Part × List Char) :=
  match cs.dropWhile (· ≠ ':') with
  | ':' :: ']' :: rest =>
      let name := String.ofList (cs.takeWhile (· ≠ ':'))
      (named.lookup name).map fun ranges =>
        (⟨if negated then ranges.complement else ranges, 0⟩,
          rest)
  | _ => none

/- The name of a class ends before the group is closed. -/
theorem namedBehind_append
    (negated : Bool)
    (cs : List Char) :
    namedBehind negated (cs ++ closing) =
      leaving closing (namedBehind negated cs) := by
  unfold namedBehind
  cases hLeft : cs.dropWhile (· ≠ ':') with
  | nil =>
      rw [List.dropWhile_append, hLeft]
      rfl
  | cons c rest =>
      have hSome : cs.dropWhile (· ≠ ':') ≠ [] := by
        rw [hLeft]
        exact List.cons_ne_nil c rest
      rw [dropWhile_append_closing (Or.inl hSome), hLeft,
        takeWhile_append_closing (Or.inl hSome)]
      match rest with
      | [] =>
          by_cases hColon : c = ':'
          · subst hColon
            rfl
          · simp [leaving, hColon]
      | d :: rest =>
          by_cases hColon : c = ':'
          · by_cases hEnd : d = ']'
            · subst hColon hEnd
              simp only [List.cons_append, leaving,
                Option.map_map]
              rfl
            · simp [leaving, hColon, hEnd]
          · simp [leaving, hColon]

/- So does a name with a sign. -/
theorem named?_append (cs : List Char) :
    named? (cs ++ closing) = leaving closing (named? cs) := by
  have hNamed (cs : List Char) :
      named? cs = namedBehind (signed cs).1 (signed cs).2 :=
    rfl
  rw [hNamed, hNamed, signed_append]
  exact namedBehind_append (signed cs).1 (signed cs).2

/- What a class starts with behind its sign. -/
def startBehind
    (negated : Bool)
    (cs : List Char) : OpenClass × List Char :=
  let (first, rest) :=
    match cs.takeWhile (· = '-'), cs.dropWhile (· = '-') with
    | [], ']' :: rest => ([']'], rest)
    | dashes, rest => (dashes, rest)
  (⟨negated, none,
    first.map fun c => ⟨Text.CodePointRanges.single c, 0⟩⟩,
    rest)

/- The start of a class ends before the group is closed. -/
theorem startBehind_append
    (negated : Bool)
    (cs : List Char) :
    startBehind negated (cs ++ closing) =
      ((startBehind negated cs).1,
        (startBehind negated cs).2 ++ closing) := by
  unfold startBehind
  rw [dropWhile_append_closing (Or.inr rfl),
    takeWhile_append_closing (Or.inr rfl)]
  cases cs.takeWhile (· = '-') with
  | cons d dashes => rfl
  | nil =>
      cases cs.dropWhile (· = '-') with
      | nil => rfl
      | cons c rest =>
          by_cases hEnd : c = ']'
          · subst hEnd
            rfl
          · simp [hEnd]

/- So does a start with a sign. -/
theorem start_append (cs : List Char) :
    OpenClass.start (cs ++ closing) =
      ((OpenClass.start cs).1,
        (OpenClass.start cs).2 ++ closing) := by
  have hStart (cs : List Char) :
      OpenClass.start cs =
        startBehind (signed cs).1 (signed cs).2 :=
    rfl
  rw [hStart, hStart, signed_append]
  exact startBehind_append (signed cs).1 (signed cs).2

/- The text still starts with another character. -/
theorem ne_cons_append
    {cs : List Char}
    {a : Char}
    (hSign : a ≠ ')' ∨ cs ≠ [])
    (hOther : ∀ rest, cs = a :: rest → False) :
    ∀ rest, cs ++ closing = a :: rest → False := by
  intro rest hSame
  cases cs with
  | nil =>
      rw [closing, List.nil_append, List.cons.injEq] at hSame
      rcases hSign with hClose | hSome
      · exact hClose hSame.1.symm
      · exact hSome rfl
  | cons c cs =>
      rw [List.cons_append, List.cons.injEq] at hSame
      exact hOther cs (congrArg (· :: cs) hSame.1)

/- The text still starts with no sign of an operation. -/
theorem ne_cons_cons_append
    {cs : List Char}
    {a : Char}
    (hSome : cs = [] → False)
    (hSign : a ≠ ')')
    (hOther : ∀ rest, cs = a :: a :: rest → False) :
    ∀ rest, cs ++ closing = a :: a :: rest → False := by
  intro rest hSame
  match cs with
  | [] => exact hSome rfl
  | [c] =>
      rw [closing, List.cons_append, List.cons.injEq,
        List.nil_append, List.cons.injEq] at hSame
      exact hSign hSame.2.1.symm
  | c :: d :: cs =>
      rw [List.cons_append, List.cons_append,
        List.cons.injEq, List.cons.injEq] at hSame
      rcases hSame with ⟨rfl, rfl, _⟩
      exact hOther cs rfl

/- The class of a name in brackets inside a class. -/
def innerName? (cs : List Char) :
    Option (Part × List Char) :=
  match cs with
  | ':' :: rest => named? rest
  | _ => none

/- The name in brackets ends before the group is closed. -/
theorem innerName?_append (cs : List Char) :
    innerName? (cs ++ closing) =
      leaving closing (innerName? cs) := by
  cases cs with
  | nil => rfl
  | cons c cs =>
      by_cases hColon : c = ':'
      · subst hColon
        exact named?_append cs
      · simp [innerName?, leaving, hColon]

/- A left bracket opens a name or a class. -/
theorem finish?_open
    (fuel : Nat)
    (cls : OpenClass)
    (outer : List OpenClass)
    (cs : List Char) :
    finish? (fuel + 1) cls outer ('[' :: cs) =
      match innerName? cs with
      | some (item, rest) =>
          finish? fuel (cls.add item) outer rest
      | none =>
          finish? fuel (OpenClass.start cs).1 (cls :: outer)
            (OpenClass.start cs).2 := by
  rfl

/- A class is taken without a look behind its end. -/
theorem finish?_append
    {fuel : Nat}
    {cls : OpenClass}
    {outer : List OpenClass}
    {cs rest : List Char}
    {part : Part}
    (hRead :
      finish? fuel cls outer cs = some (part, rest))
    (more : Nat) :
    finish? (more + fuel) cls outer (cs ++ closing) =
      some (part, rest ++ closing) := by
  fun_induction finish? fuel cls outer cs with
  | case1 => cases hRead
  | case2 => cases hRead
  | case3 fuel cls cs =>
      cases hRead
      rfl
  | case4 fuel cls cs parent outer ih =>
      exact ih hRead
  | case5 fuel cls outer cs ih =>
      exact ih hRead
  | case6 fuel cls outer cs ih =>
      exact ih hRead
  | case7 fuel cls outer cs ih =>
      exact ih hRead
  | case8 fuel cls outer cs name item left hName ih =>
      have hInner : innerName? cs = some (item, left) :=
        hName
      rw [Nat.add_succ, List.cons_append, finish?_open,
        innerName?_append, hInner]
      exact ih hRead
  | case9 fuel cls outer cs name hName inner left hStart ih =>
      have hInner : innerName? cs = none := hName
      rw [Nat.add_succ, List.cons_append, finish?_open,
        innerName?_append, hInner, start_append, hStart]
      exact ih hRead
  | case10 => cases hRead
  | case11 fuel cls outer cs hSome hEnd hMeet hWithout hApart
      hOpen item left hItem ih =>
      rw [Nat.add_succ, finish?, local_item? _ _ _ hItem]
      · exact ih hRead
      · intro hNone
        exact hSome (List.append_eq_nil_iff.mp hNone).1
      · exact ne_cons_append (Or.inl (by decide)) hEnd
      · exact ne_cons_cons_append hSome (by decide) hMeet
      · exact ne_cons_cons_append hSome (by decide) hWithout
      · exact ne_cons_cons_append hSome (by decide) hApart
      · exact ne_cons_append (Or.inl (by decide)) hOpen

/- A class is taken without a look behind it. -/
theorem local_read? : Local read? := by
  intro cs part rest hRead
  have hStart :
      finish? ((OpenClass.start cs).2.length + 1)
          (OpenClass.start cs).1 [] (OpenClass.start cs).2 =
        some (part, rest) :=
    hRead
  rw [read?, start_append]
  dsimp only
  rw [List.length_append, Nat.add_comm _ closing.length]
  exact finish?_append hStart closing.length

end CharClass

------------------------------------------------------------
-- Lexemes
------------------------------------------------------------

namespace Expression

open CharClass (local_primitive? local_read? ne_cons_append)

/- A number ends before the group is closed. -/
theorem number?_append (cs : List Char) :
    number? (cs ++ closing) =
      ((number? cs).1, (number? cs).2 ++ closing) := by
  unfold number?
  dsimp only
  rw [dropWhile_append_closing (Or.inr rfl),
    takeWhile_append_closing (Or.inr rfl),
    dropWhile_append_closing (Or.inr rfl),
    dropWhile_append_closing (Or.inr rfl)]

/- A count is taken without a look behind it. -/
theorem local_count? : Local count? := by
  intro cs range rest hRead
  unfold count? at hRead ⊢
  rw [number?_append]
  split at hRead
  · rename_i n left hNumber
    cases hRead
    rw [hNumber]
    rfl
  · rename_i n left hNumber
    cases hRead
    rw [hNumber]
    rfl
  · rename_i n more hOther hNumber
    split at hRead
    · rename_i m left hSecond
      rw [hNumber]
      cases more with
      | nil => cases hSecond
      | cons c more =>
          have hEnd : c ≠ '\x7d' := by
            rintro rfl
            exact hOther more rfl
          have hBoth :
              number? (c :: (more ++ closing)) =
                (some m, '\x7d' :: (left ++ closing)) := by
            rw [← List.cons_append, number?_append, hSecond]
            rfl
          split at hRead
          · rename_i hOrder
            cases hRead
            simp [hEnd, hBoth, hOrder]
          · cases hRead
    · cases hRead
  · cases hRead

/- A mark is seen before the group is closed. -/
theorem repetition_append
    (least : Nat)
    (greatest : Option Nat)
    (cs : List Char) :
    repetition least greatest (cs ++ closing) =
      ((repetition least greatest cs).1,
        (repetition least greatest cs).2 ++ closing) := by
  cases cs with
  | nil => rfl
  | cons c cs =>
      by_cases hMark : c = '?'
      · subst hMark
        rfl
      · simp [repetition, hMark]

/- A repetition with a mark is taken as a whole. -/
theorem repetition_append_eq
    {least : Nat}
    {greatest : Option Nat}
    {cs rest : List Char}
    {lexeme : Lexeme}
    (hRead : repetition least greatest cs = (lexeme, rest)) :
    repetition least greatest (cs ++ closing) =
      (lexeme, rest ++ closing) := by
  rw [repetition_append, hRead]

/- A lexeme is taken without a look behind it. -/
theorem local_lexeme? : Local lexeme? := by
  intro cs lexeme rest hRead
  fun_cases lexeme? cs with
  | case1 => cases hRead
  | case2 cs =>
      cases hRead
      rfl
  | case3 tail hOther =>
      rw [lexeme?] at hRead
      · cases hRead
      · exact hOther
  | case4 cs hPlain hGroup =>
      rw [lexeme?] at hRead
      · cases hRead
        have hStill := ne_cons_append (Or.inl (by decide)) hGroup
        rw [List.cons_append, lexeme?]
        · exact fun cs => hStill (':' :: cs)
        · exact hStill
      · exact hPlain
      · exact hGroup
  | case10 cs =>
      have hWhole := Option.some.inj hRead
      exact congrArg some (repetition_append_eq hWhole)
  | case11 cs =>
      have hWhole := Option.some.inj hRead
      exact congrArg some (repetition_append_eq hWhole)
  | case12 cs =>
      have hWhole := Option.some.inj hRead
      exact congrArg some (repetition_append_eq hWhole)
  | case13 cs =>
      rcases Option.map_eq_some_iff.mp hRead with
        ⟨⟨⟨least, greatest⟩, left⟩, hCount, hWhole⟩
      rw [List.cons_append, lexeme?, local_count? _ _ _ hCount]
      exact congrArg some (repetition_append_eq hWhole)
  | case14 cs =>
      rcases Option.map_eq_some_iff.mp hRead with
        ⟨⟨cls, left⟩, hClass, hWhole⟩
      cases hWhole
      rw [List.cons_append, lexeme?, local_read? _ _ _ hClass]
      rfl
  | case15 cs hSome _ _ hOpen hClose hBar hStart hEnd hAny
      hStar hPlus hMark hBrace hBracket =>
      rw [lexeme?] at hRead
      · rcases Option.map_eq_some_iff.mp hRead with
          ⟨⟨p, left⟩, hPrimitive, hWhole⟩
        cases hWhole
        have hStill := ne_cons_append (Or.inl (by decide)) hOpen
        have hOther := ne_cons_append (Or.inr hSome) hClose
        rw [lexeme?, local_primitive? _ _ _ hPrimitive]
        · rfl
        · intro hNone
          exact hSome (List.append_eq_nil_iff.mp hNone).1
        · exact fun cs => hStill ('?' :: ':' :: cs)
        · exact fun cs => hStill ('?' :: cs)
        · exact hStill
        · exact hOther
        · exact ne_cons_append (Or.inl (by decide)) hBar
        · exact ne_cons_append (Or.inl (by decide)) hStart
        · exact ne_cons_append (Or.inl (by decide)) hEnd
        · exact ne_cons_append (Or.inl (by decide)) hAny
        · exact ne_cons_append (Or.inl (by decide)) hStar
        · exact ne_cons_append (Or.inl (by decide)) hPlus
        · exact ne_cons_append (Or.inl (by decide)) hMark
        · exact ne_cons_append (Or.inl (by decide)) hBrace
        · exact ne_cons_append (Or.inl (by decide)) hBracket
      all_goals assumption
  | _ =>
      cases hRead
      rfl

/- A pattern keeps its lexemes if a group is closed behind. -/
theorem lexemes?_append
    {fuel : Nat}
    {cs : List Char}
    {lexemes : List Lexeme}
    (hRead : lexemes? fuel cs = some lexemes)
    (more : Nat) :
    lexemes? (more + fuel + 2) (cs ++ closing) =
      some (lexemes ++ [.closeGroup, .atom .atEnd]) := by
  fun_induction lexemes? fuel cs generalizing lexemes with
  | case1 fuel =>
      cases hRead
      cases more + fuel <;> rfl
  | case2 => cases hRead
  | case3 => cases hRead
  | case4 fuel cs hSome lexeme rest hLexeme ih =>
      rcases Option.map_eq_some_iff.mp hRead with
        ⟨behind, hRest, rfl⟩
      rw [lexemes?, local_lexeme? _ _ _ hLexeme]
      · have hBehind :
            lexemes? (more + fuel.succ + 1) (rest ++ closing) =
              some (behind ++ [.closeGroup, .atom .atEnd]) :=
          ih hRest
        dsimp only
        rw [hBehind]
        rfl
      · intro hNone
        exact hSome (List.append_eq_nil_iff.mp hNone).1

end Expression

end SignedMetadata
