import SignedMetadata.Text.Ranges

/-
  Regular expressions and the texts in which they occur.

  `Regex.occursIn` looks for a part of a text that matches.
  Anchors match the empty part at the start or the end of
  the text.  The search reads one character at a time and
  keeps what may still follow, without repeats.
-/

namespace SignedMetadata

open Text (CodePointRanges)

------------------------------------------------------------
-- Regular Expressions
------------------------------------------------------------

/-
  A regular expression with anchors.  A body that is matched
  several times has a least and maybe a greatest number.
-/
inductive Regex where
| empty
| one (cls : CodePointRanges)
| seq (first second : Regex)
| alt (left right : Regex)
| times (body : Regex) (least : Nat) (greatest : Option Nat)
| atStart
| atEnd
deriving DecidableEq, Repr

namespace Regex

------------------------------------------------------------
-- Matching
------------------------------------------------------------

/-
  The expression matches the empty part at a place that is,
  or is not, the start and the end of the text.
-/
def matchesEmpty (first last : Bool) : Regex → Bool
| .empty => true
| .one _ => false
| .seq r s =>
    matchesEmpty first last r && matchesEmpty first last s
| .alt r s =>
    matchesEmpty first last r || matchesEmpty first last s
| .times r least _ => least = 0 || matchesEmpty first last r
| .atStart => first
| .atEnd => last

/-
  What may follow after the expression has read a character
  at a place that is, or is not, the start of the text.  Once
  a body has read the character, it may be matched one time
  less; where it also matches the empty part, any number of
  the required times may have been spent there.
-/
def after (first : Bool) (c : Char) : Regex → List Regex
| .empty => []
| .one cls => if cls.holds c then [.empty] else []
| .seq r s =>
    let rest := (after first c r).map fun next => .seq next s
    if matchesEmpty first false r then
      rest ++ after first c s
    else
      rest
| .alt r s => after first c r ++ after first c s
| .times r least greatest =>
    if greatest = some 0 then []
    else
      let required :=
        if matchesEmpty first false r then 0 else least - 1
      (after first c r).map fun next =>
        .seq next
          (.times r required (greatest.map fun n => n - 1))
| .atStart => []
| .atEnd => []

------------------------------------------------------------
-- Sets of Expressions
------------------------------------------------------------

/- An order of classes, by their ranges from the first on. -/
def compareRanges :
    CodePointRanges → CodePointRanges → Ordering
| [], [] => .eq
| [], _ => .lt
| _, [] => .gt
| (low, high) :: s, (low', high') :: t =>
    (compare low low').then <|
      (compare high high').then <| compareRanges s t

/- A number for each kind of expression. -/
def kind : Regex → Nat
| .empty => 0
| .one _ => 1
| .seq _ _ => 2
| .alt _ _ => 3
| .times _ _ _ => 4
| .atStart => 5
| .atEnd => 6

/-
  An order of expressions.  What is left of a repetition
  differs from the next most often in its numbers, so these
  are compared before the bodies.
-/
def order : Regex → Regex → Ordering
| .one s, .one t => compareRanges s t
| .seq r s, .seq r' s' => (order s s').then (order r r')
| .alt r s, .alt r' s' => (order r r').then (order s s')
| .times r least greatest, .times r' least' greatest' =>
    (compare least least').then <|
      (compare greatest greatest').then <| order r r'
| r, s => compare r.kind s.kind

/- The expressions of a list without repeats. -/
def distinct (rs : List Regex) : List Regex :=
  (rs.mergeSort fun r s => (order r s).isLE).eraseReps

/- Leaving out neighbours that are equal loses nothing. -/
private theorem mem_eraseRepsBy_loop
    {r last : Regex}
    {rs kept : List Regex} :
    r ∈ List.eraseRepsBy.loop (· == ·) last rs kept ↔
      r = last ∨ r ∈ rs ∨ r ∈ kept := by
  induction rs generalizing last kept with
  | nil => simp [List.eraseRepsBy.loop, or_comm]
  | cons s rs ih =>
      simp only [List.eraseRepsBy.loop]
      split <;> grind

/- A list without repeats has the same expressions. -/
theorem mem_distinct {r : Regex} {rs : List Regex} :
    r ∈ distinct rs ↔ r ∈ rs := by
  have hSorted :
      r ∈ rs.mergeSort (fun r s => (order r s).isLE) ↔
        r ∈ rs :=
    List.mem_mergeSort
  unfold distinct
  cases h : rs.mergeSort fun r s => (order r s).isLE with
  | nil =>
      simpa [List.eraseReps, List.eraseRepsBy, h]
        using hSorted
  | cons s ss =>
      rw [h] at hSorted
      simp [List.eraseReps, List.eraseRepsBy,
        mem_eraseRepsBy_loop, ← hSorted]

------------------------------------------------------------
-- Searching
------------------------------------------------------------

/-
  The expression matches from some place on, or one of the
  open expressions matches from here.
-/
def search
    (r : Regex)
    (first : Bool)
    (opened : List Regex) : List Char → Bool
| [] => (r :: opened).any (matchesEmpty first true)
| c :: cs =>
    (r :: opened).any (matchesEmpty first false) ||
      search r false
        (distinct ((r :: opened).flatMap (after first c))) cs

/- Some part of the text matches the expression. -/
def occursIn (r : Regex) (text : String) : Bool :=
  search r true [] text.toList

end Regex

end SignedMetadata
