import SignedMetadata.Proofs.Pattern.Lexing
import SignedMetadata.Proofs.Pattern.Matching

/-
  What the source of a pattern is compiled to.

  Counts are in order in all that is read from a source, so
  that it is found exactly where it matches.  A source that
  is a pattern on its own stays in the group that is put
  around it, and anchors hold what is in the group at both
  ends of a text.

  Main declarations:
    * `Expression.inOrder_of_parse?`
    * `Expression.ofLexemes?_append`
    * `Expression.parse?_anchored`
    * `Regex.matches_anchors_iff`
-/

namespace SignedMetadata

namespace Expression

------------------------------------------------------------
-- Counts of Lexemes
------------------------------------------------------------

/- The counts in the meaning of an expression are in order. -/
def InOrder (e : Expression) : Prop :=
  e.regex.InOrder

/- The counts of a lexeme are in order. -/
def Lexeme.InOrder : Lexeme → Prop
| .atom e => e.InOrder
| .repetition least greatest _ => ∀ m ∈ greatest, least ≤ m
| _ => True

/- A count is refused if it is not in order. -/
theorem inOrder_of_count?
    {cs rest : List Char}
    {least : Nat}
    {greatest : Option Nat}
    (hRead : count? cs = some ((least, greatest), rest)) :
    ∀ m ∈ greatest, least ≤ m := by
  unfold count? at hRead
  split at hRead
  · cases hRead
    rintro _ ⟨⟩
    exact Nat.le_refl least
  · cases hRead
    rintro m ⟨⟩
  · split at hRead
    · split at hRead
      · rename_i hOrder
        cases hRead
        rintro m ⟨⟩
        exact hOrder
      · cases hRead
    · cases hRead
  · cases hRead

/- A mark leaves the counts of a repetition as they are. -/
theorem inOrder_of_repetition
    {least : Nat}
    {greatest : Option Nat}
    {cs rest : List Char}
    {lexeme : Lexeme}
    (hOrder : ∀ m ∈ greatest, least ≤ m)
    (hRead : repetition least greatest cs = (lexeme, rest)) :
    lexeme.InOrder := by
  unfold repetition at hRead
  split at hRead
  · cases hRead
    exact hOrder
  · cases hRead
    exact hOrder

/- The counts of a lexeme that is read are in order. -/
theorem inOrder_of_lexeme?
    {cs rest : List Char}
    {lexeme : Lexeme}
    (hRead : lexeme? cs = some (lexeme, rest)) :
    lexeme.InOrder := by
  fun_cases lexeme? cs with
  | case1 => cases hRead
  | case10 cs =>
      apply inOrder_of_repetition _ (Option.some.inj hRead)
      rintro m ⟨⟩
  | case11 cs =>
      apply inOrder_of_repetition _ (Option.some.inj hRead)
      rintro m ⟨⟩
  | case12 cs =>
      apply inOrder_of_repetition _ (Option.some.inj hRead)
      exact fun m _ => Nat.zero_le m
  | case13 cs =>
      rcases Option.map_eq_some_iff.mp hRead with
        ⟨⟨⟨least, greatest⟩, left⟩, hCount, hWhole⟩
      exact
        inOrder_of_repetition (inOrder_of_count? hCount)
          hWhole
  | case14 cs =>
      rcases Option.map_eq_some_iff.mp hRead with
        ⟨⟨cls, left⟩, _, hWhole⟩
      cases hWhole
      trivial
  | case15 cs =>
      rw [lexeme?] at hRead
      · rcases Option.map_eq_some_iff.mp hRead with
          ⟨⟨p, left⟩, _, hWhole⟩
        cases hWhole
        trivial
      all_goals assumption
  | case3 tail hOther =>
      rw [lexeme?] at hRead
      · cases hRead
      · exact hOther
  | case4 cs hPlain hGroup =>
      rw [lexeme?] at hRead
      · cases hRead
        trivial
      · exact hPlain
      · exact hGroup
  | _ =>
      cases hRead
      trivial

/- The counts of all lexemes that are read are in order. -/
theorem inOrder_of_lexemes?
    {fuel : Nat}
    {cs : List Char}
    {lexemes : List Lexeme}
    (hRead : lexemes? fuel cs = some lexemes) :
    ∀ lexeme ∈ lexemes, lexeme.InOrder := by
  fun_induction lexemes? fuel cs generalizing lexemes with
  | case1 =>
      cases hRead
      exact List.forall_mem_nil _
  | case2 => cases hRead
  | case3 => cases hRead
  | case4 fuel cs _ lexeme rest hLexeme ih =>
      rcases Option.map_eq_some_iff.mp hRead with
        ⟨behind, hRest, rfl⟩
      exact
        List.forall_mem_cons.mpr
          ⟨inOrder_of_lexeme? hLexeme, ih hRest⟩

------------------------------------------------------------
-- Counts of Groups
------------------------------------------------------------

/- Counts are in order one after another. -/
theorem inOrder_ofItems
    (es : List Expression)
    (hOrder : ∀ e ∈ es, e.InOrder) :
    (ofItems es).InOrder := by
  have hAll : (regexSequence es).InOrder := by
    induction es with
    | nil => trivial
    | cons e es ih =>
        rw [List.forall_mem_cons] at hOrder
        exact ⟨hOrder.1, ih hOrder.2⟩
  match es with
  | [] => trivial
  | [e] => exact hAll.1
  | _ :: _ :: _ => exact hAll

/- Counts are in order in alternatives. -/
theorem inOrder_ofAlternatives
    (es : List Expression)
    (hOrder : ∀ e ∈ es, e.InOrder) :
    (ofAlternatives es).InOrder := by
  have hAll : (regexChoice es).InOrder := by
    induction es with
    | nil => trivial
    | cons e es ih =>
        rw [List.forall_mem_cons] at hOrder
        exact ⟨hOrder.1, ih hOrder.2⟩
  match es with
  | [] => trivial
  | [e] => exact hAll.1
  | _ :: _ :: _ => exact hAll

/- The counts in all that a group has read are in order. -/
structure Group.InOrder (group : Group) : Prop where
  finished : ∀ e ∈ group.finished, e.InOrder
  current : ∀ e ∈ group.current, e.InOrder

namespace Group

variable {group : Group}

/- Nothing is out of order in a group that starts. -/
theorem inOrder_start (numbered : Bool) :
    (start numbered).InOrder :=
  ⟨List.forall_mem_nil _, List.forall_mem_nil _⟩

/- One more expression leaves the counts in order. -/
theorem InOrder.add
    (hGroup : group.InOrder)
    {e : Expression}
    (hOrder : e.InOrder) :
    (group.add e).InOrder :=
  ⟨hGroup.finished,
    List.forall_mem_cons.mpr ⟨hOrder, hGroup.current⟩⟩

/- A bar leaves the counts in order. -/
theorem InOrder.split
    (hGroup : group.InOrder) :
    group.split.InOrder := by
  have hItems : (ofItems group.current.reverse).InOrder := by
    apply inOrder_ofItems
    intro e he
    exact hGroup.current e (List.mem_reverse.mp he)
  exact
    ⟨List.forall_mem_cons.mpr ⟨hItems, hGroup.finished⟩,
      List.forall_mem_nil _⟩

/- The counts of a complete group are in order. -/
theorem InOrder.body
    (hGroup : group.InOrder) :
    group.body.InOrder := by
  apply inOrder_ofAlternatives
  intro e he
  exact hGroup.split.finished e (List.mem_reverse.mp he)

end Group

/- A lexeme leaves the counts of open groups in order. -/
theorem inOrder_of_lexemeStep?
    {group next : Group}
    {outer rest : List Group}
    {lexeme : Lexeme}
    (hGroup : group.InOrder)
    (hOuter : ∀ g ∈ outer, g.InOrder)
    (hLexeme : lexeme.InOrder)
    (hStep :
      lexemeStep? group outer lexeme = some (next, rest)) :
    next.InOrder ∧ ∀ g ∈ rest, g.InOrder := by
  cases lexeme with
  | atom e =>
      cases hStep
      exact ⟨hGroup.add hLexeme, hOuter⟩
  | repetition least greatest reluctant =>
      rcases group with ⟨numbered, finished, current⟩
      cases current with
      | nil => cases hStep
      | cons e es =>
          cases hStep
          have hCurrent :=
            List.forall_mem_cons.mp hGroup.current
          refine ⟨⟨hGroup.finished, ?_⟩, hOuter⟩
          exact
            List.forall_mem_cons.mpr
              ⟨⟨hLexeme, hCurrent.1⟩, hCurrent.2⟩
  | openGroup numbered =>
      cases hStep
      exact
        ⟨Group.inOrder_start numbered,
          List.forall_mem_cons.mpr ⟨hGroup, hOuter⟩⟩
  | closeGroup =>
      cases outer with
      | nil => cases hStep
      | cons parent outer =>
          cases hStep
          rw [List.forall_mem_cons] at hOuter
          exact ⟨hOuter.1.add hGroup.body, hOuter.2⟩
  | bar =>
      cases hStep
      exact ⟨hGroup.split, hOuter⟩

/- The counts of what lexemes write are in order. -/
theorem inOrder_of_ofLexemes?
    {group : Group}
    {outer : List Group}
    {lexemes : List Lexeme}
    {e : Expression}
    (hGroup : group.InOrder)
    (hOuter : ∀ g ∈ outer, g.InOrder)
    (hLexemes : ∀ lexeme ∈ lexemes, lexeme.InOrder)
    (hRead : ofLexemes? group outer lexemes = some e) :
    e.InOrder := by
  induction lexemes generalizing group outer with
  | nil =>
      rw [ofLexemes?] at hRead
      split at hRead
      · cases hRead
        exact hGroup.body
      · cases hRead
  | cons lexeme lexemes ih =>
      rw [List.forall_mem_cons] at hLexemes
      rw [ofLexemes?] at hRead
      split at hRead
      · cases hRead
      · rename_i next rest hStep
        have hNext :=
          inOrder_of_lexemeStep? hGroup hOuter hLexemes.1
            hStep
        exact ih hNext.1 hNext.2 hLexemes.2 hRead

/- The counts of what a text writes are in order. -/
theorem inOrder_of_parse?
    {text : String}
    {e : Expression}
    (hRead : parse? text = some e) :
    e.InOrder := by
  unfold parse? at hRead
  split at hRead
  · cases hRead
  · rename_i lexemes hLexemes
    exact
      inOrder_of_ofLexemes? (Group.inOrder_start false)
        (List.forall_mem_nil _)
        (inOrder_of_lexemes? hLexemes) hRead

------------------------------------------------------------
-- Anchored Groups
------------------------------------------------------------

/- A lexeme leaves the groups further out as they are. -/
theorem lexemeStep?_append
    {group next : Group}
    {outer rest : List Group}
    {lexeme : Lexeme}
    (hStep :
      lexemeStep? group outer lexeme = some (next, rest))
    (below : List Group) :
    lexemeStep? group (outer ++ below) lexeme =
      some (next, rest ++ below) := by
  cases lexeme with
  | repetition least greatest reluctant =>
      rcases group with ⟨numbered, finished, current⟩
      cases current with
      | nil => cases hStep
      | cons e es =>
          cases hStep
          rfl
  | closeGroup =>
      cases outer with
      | nil => cases hStep
      | cons parent outer =>
          cases hStep
          rfl
  | _ =>
      cases hStep
      rfl

/-
  Lexemes that write an expression on their own leave one
  group with that body, whatever is around them.
-/
theorem ofLexemes?_append
    {group : Group}
    {outer : List Group}
    {lexemes : List Lexeme}
    {e : Expression}
    (hRead : ofLexemes? group outer lexemes = some e) :
    ∃ final : Group, final.body = e ∧
      ∀ below more,
        ofLexemes? group (outer ++ below) (lexemes ++ more) =
          ofLexemes? final below more := by
  induction lexemes generalizing group outer with
  | nil =>
      rw [ofLexemes?] at hRead
      split at hRead
      · rename_i hEmpty
        cases hRead
        rw [List.isEmpty_iff.mp hEmpty]
        exact ⟨group, rfl, fun _ _ => rfl⟩
      · cases hRead
  | cons lexeme lexemes ih =>
      rw [ofLexemes?] at hRead
      split at hRead
      · cases hRead
      · rename_i next rest hStep
        rcases ih hRead with ⟨final, hBody, hFinal⟩
        refine ⟨final, hBody, ?_⟩
        intro below more
        rw [List.cons_append, ofLexemes?,
          lexemeStep?_append hStep below]
        exact hFinal below more

/- The characters of a source between anchors. -/
theorem toList_anchored (source : String) :
    (Pattern.anchored source).toList =
      '^' :: '(' :: '?' :: ':' ::
        (source.toList ++ closing) := by
  rw [Pattern.anchored, String.toList_append, String.toList_append]
  rfl

/- There are six characters around a source. -/
theorem length_anchored (source : String) :
    (Pattern.anchored source).length =
      source.length + 6 := by
  rw [← String.length_toList, toList_anchored]
  simp [closing, String.length_toList]

/- An anchor and the start of a group are two lexemes. -/
theorem lexemes?_opened
    {fuel : Nat}
    {cs : List Char}
    {lexemes : List Lexeme}
    (hRead : lexemes? fuel cs = some lexemes) :
    lexemes? (fuel + 2) ('^' :: '(' :: '?' :: ':' :: cs) =
      some (.atom .atStart :: .openGroup false :: lexemes) := by
  change
    ((lexemes? fuel cs).map fun behind =>
        .openGroup false :: behind).map
      (fun behind => .atom .atStart :: behind) = _
  rw [hRead]
  rfl

/-
  A source that is a pattern on its own is read as the body
  of the group that is put around it.
-/
theorem parse?_anchored
    {source : String}
    {body : Expression}
    (hAlone : parse? source = some body) :
    ∃ numbered,
      parse? (Pattern.anchored source) =
        some (.sequence
          [.atStart, .group numbered body, .atEnd]) := by
  unfold parse? at hAlone
  split at hAlone
  · cases hAlone
  · rename_i lexemes hLexemes
    rcases ofLexemes?_append hAlone with
      ⟨final, rfl, hFinal⟩
    refine ⟨final.numbered, ?_⟩
    have hLength :
        (Pattern.anchored source).length =
          2 + source.length + 2 + 2 := by
      rw [length_anchored]
      omega
    rw [parse?, hLength, toList_anchored,
      lexemes?_opened (lexemes?_append hLexemes 2)]
    exact
      hFinal [(Group.start false).add .atStart]
        [.closeGroup, .atom .atEnd]

end Expression

------------------------------------------------------------
-- Anchored Expressions
------------------------------------------------------------

namespace Regex

variable {r s : Regex}
variable {first last : Bool}
variable {cs : List Char}

/- An anchor in front holds the match at the start. -/
theorem matches_atStart_seq_iff :
    (seq atStart s).Matches first last cs ↔
      first = true ∧ s.Matches true last cs := by
  constructor
  · rintro ⟨a, b, rfl, ⟨rfl, rfl⟩, hRest⟩
    exact ⟨rfl, hRest⟩
  · rintro ⟨rfl, hRest⟩
    exact ⟨[], cs, rfl, ⟨rfl, rfl⟩, hRest⟩

/- An anchor behind holds the match at the end. -/
theorem matches_seq_atEnd_iff :
    (seq r (seq atEnd empty)).Matches first last cs ↔
      last = true ∧ r.Matches first true cs := by
  constructor
  · rintro ⟨a, b, rfl, hBody, c, d, rfl, ⟨hLast, rfl⟩, rfl⟩
    rw [List.isEmpty_nil, Bool.and_true] at hLast
    subst hLast
    rw [List.append_nil, List.append_nil]
    exact ⟨rfl, hBody⟩
  · rintro ⟨rfl, hBody⟩
    refine ⟨cs, [], (List.append_nil cs).symm, hBody, ?_⟩
    exact ⟨[], [], rfl, ⟨rfl, rfl⟩, rfl⟩

/- Anchors on both sides hold the match at both ends. -/
theorem matches_anchors_iff :
    (seq atStart (seq r (seq atEnd empty))).Matches
        first last cs ↔
      first = true ∧ last = true ∧ r.Matches true true cs :=
  matches_atStart_seq_iff.trans
    (and_congr_right fun _ => matches_seq_atEnd_iff)

end Regex

end SignedMetadata
