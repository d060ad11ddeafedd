import Mathlib.Data.Int.Order.Basic
import SignedMetadata.Catalog
import SignedMetadata.Proofs.Lexicographic
import SignedMetadata.Proofs.Pattern.Engine
import SignedMetadata.Proofs.Text.Digits
import SignedMetadata.Proofs.Text.Order

/-
  Texts that the catalog describes as dates with times.

  Such a text is a list of groups of digits with a mark after
  each group.  The layout of the text gives the widths of the
  groups and the marks.  The pattern of the catalog accepts
  the texts of its layout, with digits of every script; those
  with digits of ASCII are ordered as the numbers of their
  groups.

  Main declarations:
    * `TextLayout.Fits`
    * `TextLayout.matches_regex_iff`
    * `TextLayout.bytes_write_lt_iff`
    * `Catalog.accepts_datetimePattern_iff`
-/

namespace SignedMetadata

------------------------------------------------------------
-- Layouts
------------------------------------------------------------

/- Widths of groups, each with the mark after the group. -/
abbrev TextLayout := List (Nat × Char)

namespace TextLayout

/- The groups, each with its mark behind it. -/
def write : TextLayout → List (List Char) → List Char
| (_, mark) :: layout, group :: groups =>
    group ++ mark :: write layout groups
| _, _ => []

/- The groups have the widths and digits of one kind. -/
def Fits
    (digit : Char → Bool) :
    TextLayout → List (List Char) → Prop :=
  List.Forall₂ fun place group =>
    Text.IsGroup digit place.1 group

/- The numbers of the groups. -/
def numbers (groups : List (List Char)) : List Int :=
  groups.map fun group => (Text.number group : Int)

variable {layout : TextLayout}
variable {gs hs : List (List Char)}

------------------------------------------------------------
-- Regular Expressions
------------------------------------------------------------

/- The regular expression of a layout. -/
def regex : TextLayout → Regex
| [] => .empty
| (width, mark) :: layout =>
    .seq
      (.times (.one Text.decimalDigitRanges) width
        (some width))
      (.seq (.one (Text.CodePointRanges.single mark))
        (regex layout))

/- Only the character is in its class. -/
theorem holds_single_iff
    {c mark : Char} :
    (Text.CodePointRanges.single mark).holds c = true ↔
      c = mark := by
  simp only [Text.CodePointRanges.single,
    Text.CodePointRanges.holds, List.any_cons,
    List.any_nil, Bool.or_false, Bool.and_eq_true,
    decide_eq_true_eq]
  rw [← Char.toNat_inj]
  omega

/- The regular expression describes the texts of a layout. -/
theorem matches_regex_iff
    {first last : Bool}
    {cs : List Char}
    (layout : TextLayout) :
    layout.regex.Matches first last cs ↔
      ∃ groups, layout.Fits Text.isDecimalDigit groups ∧
        cs = layout.write groups := by
  induction layout generalizing first cs with
  | nil =>
      constructor
      · intro hNone
        exact ⟨[], .nil, hNone⟩
      · rintro ⟨groups, hFits, hNone⟩
        exact hNone
  | cons place layout ih =>
      rcases place with ⟨width, mark⟩
      constructor
      · rintro
          ⟨group, _, rfl, hGroup, _, rest, rfl,
            ⟨c, rfl, hMark⟩, hRest⟩
        rw [holds_single_iff] at hMark
        rcases ih.mp hRest with ⟨groups, hFits, rfl⟩
        subst hMark
        exact
          ⟨group :: groups,
            .cons ((Regex.matches_exactly_iff width).mp hGroup)
              hFits,
            rfl⟩
      · rintro ⟨groups, hFits, rfl⟩
        cases hFits with
        | @cons _ group _ groups hGroup hFits =>
            refine
              ⟨group, mark :: write layout groups, rfl,
                (Regex.matches_exactly_iff width).mpr hGroup,
                [mark], write layout groups, rfl,
                ⟨mark, rfl, holds_single_iff.mpr rfl⟩,
                ih.mpr ⟨groups, hFits, rfl⟩⟩

------------------------------------------------------------
-- Order
------------------------------------------------------------

/- Texts of a layout are ordered as their numbers. -/
theorem write_lt_iff
    (hG : layout.Fits Char.isDigit gs)
    (hH : layout.Fits Char.isDigit hs) :
    layout.write gs < layout.write hs ↔
      numbers gs < numbers hs := by
  induction hG generalizing hs with
  | nil =>
      cases hH
      exact
        iff_of_false (List.not_lt_nil _) (List.not_lt_nil _)
  | @cons place g layout gs hGroup _ ih =>
      cases hH with
      | @cons _ h _ hs hGroup' hRest =>
          have hLength := hGroup.1.trans hGroup'.1.symm
          have hOrder := Text.strictMonoOn_number place.1
          have hLess := hOrder.lt_iff_lt hGroup hGroup'
          have hSame := hOrder.eq_iff_eq hGroup hGroup'
          change
            g ++ place.2 :: write layout gs <
                h ++ place.2 :: write layout hs ↔
              (Text.number g : Int) :: numbers gs <
                (Text.number h : Int) :: numbers hs
          rw [append_lt_append_iff hLength,
            List.cons_lt_cons_iff, List.cons_lt_cons_iff,
            Int.ofNat_lt, Int.ofNat_inj, hLess, hSame,
            ih hRest]
          simp

/- Only equal groups have equal numbers. -/
theorem numbers_inj
    (hG : layout.Fits Char.isDigit gs)
    (hH : layout.Fits Char.isDigit hs) :
    numbers gs = numbers hs ↔ gs = hs := by
  induction hG generalizing hs with
  | nil =>
      cases hH
      exact iff_of_true rfl rfl
  | @cons place g layout gs hGroup _ ih =>
      cases hH with
      | @cons _ h _ hs hGroup' hRest =>
          have hSame :=
            (Text.strictMonoOn_number place.1).eq_iff_eq
              hGroup hGroup'
          change
            (Text.number g : Int) :: numbers gs =
                (Text.number h : Int) :: numbers hs ↔ _
          rw [List.cons.injEq, List.cons.injEq,
            Int.ofNat_inj, hSame, ih hRest]

/- What holds of digits and marks holds of a whole text. -/
theorem forall_mem_write
    {P : Char → Prop}
    (hMarks : ∀ place ∈ layout, P place.2)
    (hDigits : ∀ c : Char, c.isDigit = true → P c)
    (hG : layout.Fits Char.isDigit gs) :
    ∀ c ∈ layout.write gs, P c := by
  induction hG with
  | nil => exact List.forall_mem_nil _
  | cons hGroup _ ih =>
      rw [List.forall_mem_cons] at hMarks
      intro c hc
      rcases List.mem_append.mp hc with hDigit | hRest
      · exact hDigits c (hGroup.2 c hDigit)
      · rcases List.mem_cons.mp hRest with rfl | hRest
        · exact hMarks.1
        · exact ih hMarks.2 c hRest

/- So are their bytes. -/
theorem bytes_write_lt_iff
    (hG : layout.Fits Char.isDigit gs)
    (hH : layout.Fits Char.isDigit hs) :
    Text.bytes (String.ofList (layout.write gs)) <
        Text.bytes (String.ofList (layout.write hs)) ↔
      numbers gs < numbers hs := by
  rw [Text.bytes_lt_iff, String.lt_iff, String.toList_ofList,
    String.toList_ofList, write_lt_iff hG hH]

/- Only texts with equal numbers have equal bytes. -/
theorem bytes_write_inj
    (hG : layout.Fits Char.isDigit gs)
    (hH : layout.Fits Char.isDigit hs) :
    Text.bytes (String.ofList (layout.write gs)) =
        Text.bytes (String.ofList (layout.write hs)) ↔
      numbers gs = numbers hs := by
  have hLess := bytes_write_lt_iff hG hH
  have hGreater := bytes_write_lt_iff hH hG
  constructor
  · intro hBytes
    rw [hBytes] at hLess hGreater
    rcases lt_trichotomy (numbers gs) (numbers hs) with
      hOrder | hSame | hOrder
    · have hOther := hGreater.mp (hLess.mpr hOrder)
      exact absurd hOther (lt_asymm hOrder)
    · exact hSame
    · have hOther := hLess.mp (hGreater.mpr hOrder)
      exact absurd hOther (lt_asymm hOrder)
  · intro hNumbers
    rw [(numbers_inj hG hH).mp hNumbers]

end TextLayout

------------------------------------------------------------
-- Dates with Times
------------------------------------------------------------

namespace Catalog

/- Year, month and day, then hour, minute and second. -/
def datetimeLayout : TextLayout :=
  [(4, '-'), (2, '-'), (2, 'T'), (2, ':'), (2, ':'),
    (2, 'Z')]

/- The source of the pattern is that of the layout. -/
theorem parse?_datetimePattern :
    (Expression.parse? datetimePattern.source).map
        Expression.regex =
      some datetimeLayout.regex := by
  decide +kernel

/- The pattern was compiled from its source. -/
theorem compiledBy_datetimePattern :
    datetimePattern.CompiledBy .builtIn :=
  Pattern.compiledBy_of_compileBy? (Option.some_get _).symm

/- Its source is an expression on its own. -/
theorem selfContained_datetimePattern :
    datetimePattern.SelfContained .builtIn := by
  apply Option.isSome_iff_exists.mp
  decide +kernel

/- The pattern describes the texts of the layout. -/
theorem accepts_datetimePattern_iff
    {text : String} :
    datetimePattern.accepts text = true ↔
      ∃ groups,
        datetimeLayout.Fits Text.isDecimalDigit groups ∧
          text.toList = datetimeLayout.write groups := by
  rw [Pattern.accepts_iff_matches compiledBy_datetimePattern
      selfContained_datetimePattern parse?_datetimePattern,
    TextLayout.matches_regex_iff]

end Catalog

end SignedMetadata
