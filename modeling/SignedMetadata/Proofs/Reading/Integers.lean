import Mathlib.Algebra.Ring.Int.Defs
import SignedMetadata.Proofs.Canonical.Delimiting
import SignedMetadata.Proofs.Canonical.Measure
import SignedMetadata.Proofs.Conversion.FirstFault
import SignedMetadata.Proofs.Json.Printing
import SignedMetadata.Proofs.Reading.Data
import SignedMetadata.Proofs.Text.Digits

/-
  Integers are read and written exactly.

  A number literal has a sign or none, digits, and may have a
  fraction and an exponent.  Whatever its length, it is read
  as a value exactly if it has neither and its integer has at
  most 128 bits, and the canonical text of the value is then
  the literal, but for the sign of zero.

  Main declarations:
    * `Json.Decimal.toDigits_eq`
    * `Json.NumberLiteral`
    * `Json.NumberLiteral.integerOfLiteral_iff`
    * `Json.NumberLiteral.ofInteger_integer`
    * `Json.NumberLiteral.read_exactly`
-/

namespace SignedMetadata

namespace Json

------------------------------------------------------------
-- Digits
------------------------------------------------------------

variable {n : Nat}
variable {ds : List Char}

/- Without a leading zero, digits write a large number. -/
theorem Decimal.pow_le
    (hDecimal : Decimal n ds)
    (hZero : ds ≠ ['0']) :
    10 ^ (ds.length - 1) ≤ n := by
  rcases ds with _ | ⟨d, rest⟩
  · exact absurd rfl hDecimal.nonempty
  have hDigit :=
    Text.toNat_of_isDigit
      (hDecimal.digits d List.mem_cons_self)
  have hLeading : d ≠ '0' := by
    rintro rfl
    exact hZero (hDecimal.leading rfl)
  have hFirst : 1 ≤ d.toNat - 48 := by
    have hOther : d.toNat ≠ 48 :=
      fun hSame => hLeading (Char.toNat_inj.mp hSame)
    omega
  have hMost :=
    Nat.mul_le_mul_left (10 ^ rest.length) hFirst
  rw [← hDecimal.value, ← Text.number, Text.number_cons,
    List.length_cons, Nat.add_sub_cancel]
  omega

/- The digits of a number are those that are printed. -/
theorem Decimal.toDigits_eq (hDecimal : Decimal n ds) :
    Nat.toDigits 10 n = ds := by
  by_cases hZero : ds = ['0']
  · subst hZero
    rw [← hDecimal.value]
    rfl
  have hBelow := Text.number_lt hDecimal.digits
  rw [Text.number, hDecimal.value] at hBelow
  have hSome : 0 < ds.length :=
    List.length_pos_iff.mpr hDecimal.nonempty
  have hMost : (Nat.toDigits 10 n).length ≤ ds.length :=
    (Nat.length_toDigits_le_iff (by decide) hSome).mpr hBelow
  have hLeast : ds.length ≤ (Nat.toDigits 10 n).length := by
    by_contra hShort
    have hPrinted : 0 < (Nat.toDigits 10 n).length :=
      List.length_pos_iff.mpr Nat.toDigits_ne_nil
    have hLess : n < 10 ^ (ds.length - 1) :=
      (Nat.length_toDigits_le_iff (by decide) (by omega)).mp
        (by omega)
    exact absurd hLess (Nat.not_lt_of_le (hDecimal.pow_le hZero))
  -- groups of one width are told apart by their numbers
  apply (Text.strictMonoOn_number ds.length).injOn
  · exact
      ⟨Nat.le_antisymm hMost hLeast, Text.isDigit_toDigits n⟩
  · exact ⟨rfl, hDecimal.digits⟩
  · rw [Text.number, Text.number, hDecimal.value,
      Nat.ofDigitChars_ten_toDigits]

------------------------------------------------------------
-- Number Literals
------------------------------------------------------------

/- A literal of the grammar of numbers, by its parts. -/
structure NumberLiteral where
  negative : Bool
  whole : List Char
  fraction : List Char
  exponent : List Char
  keptExponent : List Char
  hWhole : Decimal (Text.number whole) whole
  hFraction : Fraction fraction
  hExponent : Exponent keptExponent exponent

namespace NumberLiteral

variable (l : NumberLiteral)

/- The sign, if there is one. -/
def sign : List Char :=
  if l.negative then ['-'] else []

/- The literal as it is written. -/
def text : String :=
  String.ofList
    (l.sign ++ (l.whole ++ (l.fraction ++ l.exponent)))

/- The literal as it is kept. -/
def kept : String :=
  String.ofList
    (l.sign ++ (l.whole ++ (l.fraction ++ l.keptExponent)))

/- The literal has neither a fraction nor an exponent. -/
def IsWhole : Prop :=
  l.fraction = [] ∧ l.exponent = []

/- The integer that the sign and the digits write. -/
def integer : Int :=
  if l.negative then -(Text.number l.whole : Int)
  else Text.number l.whole

/- The integer has at most 128 bits, with one for the sign. -/
def HasRange : Prop :=
  -2 ^ 127 ≤ l.integer ∧ l.integer ≤ 2 ^ 127 - 1

/- The parts are written and kept as in the grammar. -/
theorem written :
    WrittenNumber l.kept.toList l.text.toList := by
  have hMagnitude :=
    WrittenMagnitude.parts l.hWhole l.hFraction l.hExponent
  rw [kept, text, String.toList_ofList, String.toList_ofList,
    sign]
  cases l.negative with
  | false => exact .unsigned hMagnitude
  | true => exact .negative hMagnitude

/- Every number of the grammar has such parts. -/
theorem isNumber_iff
    {literal : String} :
    IsNumber literal ↔
      ∃ l : NumberLiteral, l.text = literal := by
  constructor
  · rintro ⟨kept, hWritten⟩
    have hParts :
        ∀ {kept cs : List Char} (negative : Bool),
          WrittenMagnitude kept cs →
            ∃ l : NumberLiteral,
              l.negative = negative ∧
                l.whole ++ (l.fraction ++ l.exponent) =
                  cs := by
      intro kept cs negative hMagnitude
      cases hMagnitude with
      | @parts n ds _ _ _ hWhole hFraction hExponent =>
          have hValue := hWhole.value
          subst hValue
          exact
            ⟨⟨negative, ds, _, _, _, hWhole, hFraction,
              hExponent⟩, rfl, rfl⟩
    have hText :
        ∀ {cs : List Char}, literal.toList = cs →
          literal = String.ofList cs := by
      rintro cs rfl
      exact String.ofList_toList.symm
    generalize hLiteral : literal.toList = cs at hWritten
    rw [hText hLiteral]
    cases hWritten with
    | unsigned hMagnitude =>
        rcases hParts false hMagnitude with ⟨l, hSign, rfl⟩
        refine ⟨l, ?_⟩
        rw [text, sign, hSign]
        rfl
    | negative hMagnitude =>
        rcases hParts true hMagnitude with ⟨l, hSign, rfl⟩
        refine ⟨l, ?_⟩
        rw [text, sign, hSign]
        rfl
  · rintro ⟨l, rfl⟩
    exact ⟨_, l.written⟩

variable {l}

/- Both ranges are the same. -/
theorem hasRange_iff :
    l.HasRange ↔ Value.InRange l.integer := by
  have hLeast : Value.minInteger = -2 ^ 127 := by decide
  have hGreatest : Value.maxInteger = 2 ^ 127 - 1 := by decide
  rw [HasRange, Value.InRange, hLeast, hGreatest]

/- A literal without an exponent is kept as it is written. -/
theorem kept_eq (hWhole : l.IsWhole) :
    l.kept = l.text := by
  have hNone := l.hExponent
  rw [hWhole.2] at hNone
  rw [kept, text, hWhole.2]
  generalize l.keptExponent = ds at hNone
  cases hNone
  rfl

/- Without a fraction either, it is a sign and digits. -/
theorem toList_text (hWhole : l.IsWhole) :
    l.text.toList = l.sign ++ l.whole := by
  rw [text, String.toList_ofList, hWhole.1, hWhole.2,
    List.append_nil, List.append_nil]

/- They are the numeral of its integer. -/
theorem numeral_integer (hWhole : l.IsWhole) :
    Numeral l.integer l.kept.toList := by
  rw [kept_eq hWhole, toList_text hWhole, sign, integer]
  cases l.negative with
  | false => exact .unsigned l.hWhole
  | true => exact .negative l.hWhole

/- A fraction or an exponent is marked in what is kept. -/
theorem marked_of_not_isWhole (hOther : ¬ l.IsWhole) :
    ∃ c ∈ l.kept.toList, marksFraction c = true := by
  have hFraction := l.hFraction
  have hExponent := l.hExponent
  rw [kept, String.toList_ofList]
  rw [IsWhole] at hOther
  generalize l.fraction = fraction at *
  generalize l.exponent = exponent at *
  generalize l.keptExponent = kept at *
  cases hFraction with
  | point _ => exact ⟨'.', by simp, rfl⟩
  | none =>
      cases hExponent with
      | none => exact absurd ⟨rfl, rfl⟩ hOther
      | unsigned _ _ => exact ⟨'e', by simp, rfl⟩
      | signed _ _ _ => exact ⟨'e', by simp, rfl⟩

/- Only the literal of an integer in range gives an integer. -/
theorem integerOfLiteral_iff
    {i : Int} :
    integerOfLiteral l.kept = .ok i ↔
      (l.IsWhole ∧ l.HasRange) ∧ i = l.integer := by
  by_cases hWhole : l.IsWhole
  · rw [integerOfLiteral_eq_ok_iff,
      integer?_of_numeral (numeral_integer hWhole),
      hasRange_iff, Option.some.injEq]
    constructor
    · rintro ⟨rfl, hRange⟩
      exact ⟨⟨hWhole, hRange⟩, rfl⟩
    · rintro ⟨⟨_, hRange⟩, rfl⟩
      exact ⟨rfl, hRange⟩
  · rw [integerOfLiteral_of_marked
      (marked_of_not_isWhole hWhole)]
    apply iff_of_false
    · intro hInteger
      cases hInteger
    · rintro ⟨⟨hIsWhole, _⟩, _⟩
      exact hWhole hIsWhole

/- A literal is the document of its number. -/
theorem ofText_text (l : NumberLiteral) :
    Document.ofText l.text = ⟨.number l.kept, false⟩ := by
  apply Tree.ofText_of_writtenTokens
  · exact trivial
  · exact Nat.zero_le _
  · have hToken := WrittenToken.number l.written
    rw [String.ofList_toList] at hToken
    have hTokens :=
      WrittenTokens.cons White.nil hToken (.nil White.nil)
    rw [List.nil_append, List.append_nil] at hTokens
    exact hTokens

------------------------------------------------------------
-- Canonical Text
------------------------------------------------------------

/- An integer is printed as its sign, if below zero, and digits. -/
theorem toList_ofInteger_integer :
    (Text.ofInteger l.integer).toList =
      (if l.integer < 0 then ['-'] else []) ++ l.whole := by
  have hAbs : l.integer.natAbs = Text.number l.whole := by
    rw [integer]
    split_ifs
    · rw [Int.natAbs_neg, Int.natAbs_natCast]
    · exact Int.natAbs_natCast _
  rw [Text.toList_ofInteger, hAbs, l.hWhole.toDigits_eq]

/- It is below zero if it has a sign, unless it is zero. -/
theorem integer_lt_zero_iff :
    l.integer < 0 ↔
      l.negative = true ∧ Text.number l.whole ≠ 0 := by
  rw [integer]
  split_ifs with hSign
  · rw [and_iff_right hSign]
    omega
  · apply iff_of_false
    · omega
    · exact fun hBoth => hSign hBoth.1

/- Only the literal of zero with a sign is not printed. -/
theorem text_eq_minus_zero_iff (hWhole : l.IsWhole) :
    l.text = "-0" ↔
      l.negative = true ∧ Text.number l.whole = 0 := by
  have hZero : "-0".toList = ['-', '0'] := by decide
  rw [← String.toList_inj, toList_text hWhole, hZero, sign]
  split_ifs with hSign
  · rw [hSign, List.singleton_append, List.cons.injEq,
      and_iff_right rfl, and_iff_right rfl]
    constructor
    · intro hDigits
      rw [hDigits]
      rfl
    · intro hNone
      rw [← l.hWhole.toDigits_eq, hNone]
      rfl
  · apply iff_of_false
    · intro hDigits
      have hMinus : '-' ∈ l.whole := by
        rw [← List.nil_append l.whole, hDigits]
        exact List.mem_cons_self
      exact absurd (l.hWhole.digits '-' hMinus) (by decide)
    · exact fun hBoth => hSign hBoth.1

/- An integer is printed as its literal, zero without sign. -/
theorem ofInteger_integer (hWhole : l.IsWhole) :
    Text.ofInteger l.integer =
      if l.text = "-0" then "0" else l.text := by
  rw [← String.toList_inj, toList_ofInteger_integer]
  split_ifs with hNegative hZero hZero
  · rw [integer_lt_zero_iff] at hNegative
    rw [text_eq_minus_zero_iff hWhole] at hZero
    exact absurd hZero.2 hNegative.2
  · rw [integer_lt_zero_iff] at hNegative
    rw [toList_text hWhole, sign, if_pos hNegative.1]
  · rw [text_eq_minus_zero_iff hWhole] at hZero
    rw [← l.hWhole.toDigits_eq, hZero.2]
    rfl
  · rw [integer_lt_zero_iff] at hNegative
    rw [text_eq_minus_zero_iff hWhole] at hZero
    have hSign : ¬ l.negative = true := by tauto
    rw [toList_text hWhole, sign, if_neg hSign]

end NumberLiteral

end Json

namespace Canonical

/- An integer in range has at most forty characters. -/
theorem size_integer_le
    {i : Int}
    (hRange : Value.InRange i) :
    size (.integer i) ≤ 40 := by
  have hAbs : i.natAbs < 10 ^ 39 := by
    rcases hRange with ⟨hLeast, hGreatest⟩
    unfold Value.minInteger at hLeast
    unfold Value.maxInteger at hGreatest
    omega
  have hDigits : digitCount i.natAbs ≤ 39 := by
    rw [← length_toDigits]
    exact
      (Nat.length_toDigits_le_iff (by decide)
        (by decide)).mpr hAbs
  rw [size_integer, integerLength]
  split_ifs <;> omega

end Canonical

------------------------------------------------------------
-- Reading
------------------------------------------------------------

namespace Json

namespace NumberLiteral

variable {l : NumberLiteral}

/- What is read of an integer is read of the literal. -/
theorem exists_integer_iff
    {v : Value} :
    (∃ i, integerOfLiteral l.kept = .ok i ∧
      .integer i = v) ↔
      (l.IsWhole ∧ l.HasRange) ∧ v = .integer l.integer := by
  simp only [integerOfLiteral_iff]
  constructor
  · rintro ⟨i, ⟨hExact, rfl⟩, rfl⟩
    exact ⟨hExact, rfl⟩
  · rintro ⟨hExact, rfl⟩
    exact ⟨_, ⟨hExact, rfl⟩, rfl⟩

/- A number with a fraction or an exponent is no integer. -/
theorem ofJson_of_not_isWhole
    (limits : Limits)
    (hOther : ¬ l.IsWhole) :
    Value.ofJson limits (.number l.kept) =
      .error (.floatingPoint Path.root l.kept) := by
  have hLiteral :=
    integerOfLiteral_of_marked (marked_of_not_isWhole hOther)
  change Value.ofLiteralAt Path.root l.kept = _
  rw [Value.ofLiteralAt, hLiteral]

/- An integer out of range is reported with its literal. -/
theorem ofJson_of_not_hasRange
    (limits : Limits)
    (hWhole : l.IsWhole)
    (hRange : ¬ l.HasRange) :
    Value.ofJson limits (.number l.kept) =
      .error (.integerOutOfRange Path.root l.text) := by
  rw [hasRange_iff] at hRange
  have hLiteral :=
    integerOfLiteral_of_outOfRange (numeral_integer hWhole)
      hRange
  change Value.ofLiteralAt Path.root l.kept = _
  rw [Value.ofLiteralAt, hLiteral, kept_eq hWhole]

/-
  A number literal of any length is read as a value exactly
  if it has neither a fraction nor an exponent, and its
  integer is in range; so it is when it is read directly, when
  the data of the text is converted, and when that is read.
  The conversion reports a fraction or exponent before the
  range.  The canonical text of the value is the literal, but
  for zero with a sign, and there is one if limits allow for
  forty bytes.
-/
theorem read_exactly :
    (∀ literal,
      IsNumber literal ↔
        ∃ l : NumberLiteral, l.text = literal) ∧
      ∀ l : NumberLiteral,
        (∀ v,
          Value.ofText l.text = .ok v ↔
            (l.IsWhole ∧ l.HasRange) ∧
              v = .integer l.integer) ∧
        (∃ json,
          Json.ofText l.text = .ok json ∧
          (∀ v,
            Value.readJson json = .ok v ↔
              (l.IsWhole ∧ l.HasRange) ∧
                v = .integer l.integer) ∧
          ∀ limits,
            (∀ v,
              Value.ofJson limits json = .ok v ↔
                (l.IsWhole ∧ l.HasRange) ∧
                  v = .integer l.integer) ∧
            (¬ l.IsWhole →
              Value.ofJson limits json =
                .error (.floatingPoint Path.root l.kept)) ∧
            (l.IsWhole → ¬ l.HasRange →
              Value.ofJson limits json =
                .error
                  (.integerOutOfRange Path.root l.text))) ∧
        (l.IsWhole → l.HasRange →
          ∀ limits : Limits,
            (∀ out,
              Canonical.encode limits (.integer l.integer) =
                  .ok out →
                out =
                  if l.text = "-0" then "0" else l.text) ∧
            (40 ≤ limits.maxBytes →
              ∃ out,
                Canonical.encode limits
                    (.integer l.integer) =
                  .ok out)) := by
  refine ⟨fun literal => isNumber_iff, fun l => ?_⟩
  refine ⟨?_, ⟨.number l.kept, ?_, ?_, ?_⟩, ?_⟩
  · intro v
    rw [Value.ofText_eq_ok_iff, ofText_text l,
      Value.ofTree_number_iff, exists_integer_iff]
    exact and_iff_right rfl
  · rw [Json.ofText_eq_ok_iff, ofText_text l]
    exact ⟨rfl, rfl⟩
  · intro v
    exact Value.ofNumber_eq_ok_iff.trans exists_integer_iff
  · intro limits
    refine
      ⟨fun v => ?_, ofJson_of_not_isWhole limits,
        ofJson_of_not_hasRange limits⟩
    exact Value.ofJsonAt_number_iff.trans exists_integer_iff
  · intro hWhole hRange limits
    constructor
    · intro out hEncode
      rw [← ofInteger_integer hWhole]
      exact Canonical.eq_ofValue_of_encode hEncode
    · intro hRoom
      have hSize :=
        Canonical.size_integer_le (hasRange_iff.mp hRange)
      rw [Canonical.encode_of_depth_le (Nat.zero_le _),
        if_pos (hSize.trans hRoom)]
      exact ⟨_, rfl⟩

/- A literal of digits, with a sign or none. -/
def ofDigits
    (negative : Bool)
    (whole : List Char)
    (hWhole : Decimal (Text.number whole) whole) :
    NumberLiteral :=
  ⟨negative, whole, [], [], [], hWhole, .none, .none⟩

/- The digits of the least integer. -/
def leastDigits : String :=
  "170141183460469231731687303715884105728"

/- They have no leading zero. -/
theorem decimal_leastDigits :
    Decimal (Text.number leastDigits.toList)
      leastDigits.toList := by
  have hDigits :
      Nat.toDigits 10 (2 ^ 127) = leastDigits.toList := by
    decide +kernel
  have hDecimal := decimal_toDigits (2 ^ 127)
  rw [hDigits] at hDecimal
  rw [← hDecimal.value] at hDecimal
  exact hDecimal

/- One digit is enough for a fraction or an exponent. -/
theorem digits_singleton
    {d : Char}
    (hDigit : d.isDigit = true) :
    Digits [d] :=
  ⟨List.cons_ne_nil d [], List.forall_mem_singleton.mpr hDigit⟩

/- One hundred, with a fraction and an exponent. -/
def hundred : NumberLiteral where
  negative := false
  whole := ['1']
  fraction := ['.', '0']
  exponent := ['E', '2']
  keptExponent := ['e', '+', '2']
  hWhole := decimal_toDigits 1
  hFraction := .point (digits_singleton rfl)
  hExponent := .unsigned (Or.inr rfl) (digits_singleton rfl)

/-
  The least integer is read, but not with the other sign; nor
  is one hundred as a fraction with an exponent.
-/
theorem read_exactly_least :
    Value.ofText ("-" ++ leastDigits) =
        .ok (.integer (-2 ^ 127)) ∧
      Canonical.encode .standard (.integer (-2 ^ 127)) =
        .ok ("-" ++ leastDigits) ∧
      (∃ json, Json.ofText leastDigits = .ok json ∧
        Value.ofJson .standard json =
          .error (.integerOutOfRange Path.root leastDigits)) ∧
      ∃ json, Json.ofText "1.0E2" = .ok json ∧
        Value.ofJson .standard json =
          .error (.floatingPoint Path.root "1.0e+2") := by
  rcases read_exactly with ⟨_, hRead⟩
  have hWhole :
      ∀ negative,
        (ofDigits negative _ decimal_leastDigits).IsWhole :=
    fun negative => ⟨rfl, rfl⟩
  have hLeast :
      (ofDigits true _ decimal_leastDigits).HasRange := by
    unfold HasRange
    decide +kernel
  have hTooGreat :
      ¬ (ofDigits false _ decimal_leastDigits).HasRange := by
    unfold HasRange
    decide +kernel
  have hSigned :
      (ofDigits true _ decimal_leastDigits).text =
        "-" ++ leastDigits := by
    decide +kernel
  have hUnsigned :
      (ofDigits false _ decimal_leastDigits).text =
        leastDigits := by
    decide +kernel
  have hInteger :
      (ofDigits true _ decimal_leastDigits).integer =
        -2 ^ 127 := by
    decide +kernel
  rcases hRead (ofDigits true _ decimal_leastDigits) with
    ⟨hDirect, _, hCanonical⟩
  rcases hRead (ofDigits false _ decimal_leastDigits) with
    ⟨_, ⟨json, hJson, _, hConverted⟩, _⟩
  rcases hRead hundred with
    ⟨_, ⟨data, hData, _, hFraction⟩, _⟩
  rw [hSigned, hInteger] at hDirect hCanonical
  rw [hUnsigned] at hJson hConverted
  refine
    ⟨(hDirect _).mpr ⟨⟨hWhole true, hLeast⟩, rfl⟩, ?_,
      ⟨json, hJson,
        (hConverted _).2.2 (hWhole false) hTooGreat⟩,
      ⟨data, hData, (hFraction _).2.1 ?_⟩⟩
  · rcases hCanonical (hWhole true) hLeast .standard with
      ⟨hExact, hSome⟩
    rcases hSome (by decide) with ⟨out, hEncode⟩
    rw [hEncode, hExact out hEncode]
    decide +kernel
  · intro hNone
    cases hNone.1

end NumberLiteral

end Json

end SignedMetadata
