import SignedMetadata.Canonical.Length
import SignedMetadata.Proofs.Text.Decimal

/-
  The size of canonical texts in bytes.

  Scalars have the length that the measurement adds for them.
  A container has two bytes for its marks, a byte for every
  separator, and the sizes of its parts.

  Main declarations:
    * `size`
    * `size_integer`
    * `size_sequence`
    * `size_mapping`
-/

namespace SignedMetadata

namespace Canonical

/- The bytes of the canonical text of a value. -/
def size (v : Value) : Nat :=
  (ofValue v).utf8ByteSize

/- The bytes of elements, without the separators. -/
def itemsSize : List Value → Nat
| [] => 0
| v :: vs => size v + itemsSize vs

/- The bytes of members, without the separators. -/
def membersSize : List (String × Value) → Nat
| [] => 0
| (k, v) :: ms =>
    stringLength k + 1 + (size v + membersSize ms)

------------------------------------------------------------
-- Strings
------------------------------------------------------------

/- A text has the bytes of its first character and others. -/
theorem utf8ByteSize_ofList_cons
    (c : Char)
    (cs : List Char) :
    (String.ofList (c :: cs)).utf8ByteSize =
      c.utf8Size + (String.ofList cs).utf8ByteSize := by
  rw [String.ofList_cons, String.utf8ByteSize_append,
    String.utf8ByteSize_singleton]

/- An escape adds one byte for each escaped character. -/
theorem utf8ByteSize_escaped (cs : List Char) :
    (String.ofList (cs.flatMap escapeChar)).utf8ByteSize =
      (String.ofList cs).utf8ByteSize +
        cs.countP isEscaped := by
  induction cs with
  | nil => rfl
  | cons c cs ih =>
      rw [List.flatMap_cons, String.ofList_append,
        String.utf8ByteSize_append, ih,
        utf8ByteSize_ofList_cons]
      by_cases hEscaped : isEscaped c = true
      · have hSize : '\\'.utf8Size = 1 := by decide
        simp only [escapeChar, hEscaped, if_true,
          utf8ByteSize_ofList_cons, hSize, String.ofList_nil,
          String.utf8ByteSize_empty, List.countP_cons]
        omega
      · simp only [escapeChar, hEscaped, Bool.false_eq_true,
          if_false, utf8ByteSize_ofList_cons,
          String.ofList_nil, String.utf8ByteSize_empty,
          List.countP_cons]
        omega

/- A canonical string has the measured length. -/
theorem utf8ByteSize_ofString (s : String) :
    (ofString s).utf8ByteSize = stringLength s := by
  have hQuote : '"'.utf8Size = 1 := by decide
  rw [ofString, List.cons_append, utf8ByteSize_ofList_cons,
    String.ofList_append, String.utf8ByteSize_append,
    utf8ByteSize_escaped, utf8ByteSize_ofList_cons, hQuote,
    String.ofList_toList, String.ofList_nil,
    String.utf8ByteSize_empty, stringLength]
  omega

------------------------------------------------------------
-- Numerals
------------------------------------------------------------

/- The digits of a number are counted by divisions. -/
theorem length_toDigits (n : Nat) :
    (Nat.toDigits 10 n).length = digitCount n := by
  induction n using digitCount.induct with
  | case1 n hSmall =>
      rw [digitCount, if_pos hSmall,
        Nat.toDigits_of_lt_base hSmall, List.length_singleton]
  | case2 n hLarge ih =>
      rw [digitCount, if_neg hLarge,
        Nat.toDigits_of_base_le (by decide) (by omega),
        List.length_append, List.length_singleton, ih]
      omega

/- Digits have one byte each. -/
theorem utf8ByteSize_digits
    {ds : List Char}
    (hDigits : ∀ c ∈ ds, c.isDigit = true) :
    (String.ofList ds).utf8ByteSize = ds.length := by
  induction ds with
  | nil => rfl
  | cons d ds ih =>
      have hDigit : d.isDigit = true := hDigits d (by simp)
      have hSize : d.utf8Size = 1 := by
        apply Char.utf8Size_eq_one_iff.mpr
        simp only [Char.isDigit, Bool.and_eq_true,
          decide_eq_true_eq] at hDigit
        exact UInt32.le_trans hDigit.2 (by decide)
      rw [utf8ByteSize_ofList_cons, hSize,
        ih (fun c hc => hDigits c (by simp [hc])),
        List.length_cons]
      omega

/- A numeral has the measured length. -/
theorem size_integer (i : Int) :
    size (.integer i) = integerLength i := by
  have hText :
      ofValue (.integer i) =
        String.ofList
          ((if i < 0 then ['-'] else []) ++
            Nat.toDigits 10 i.natAbs) := by
    rw [← Text.toList_ofInteger, String.ofList_toList]
    rfl
  have hDigits :=
    utf8ByteSize_digits (Text.isDigit_toDigits i.natAbs)
  rw [size, hText, String.ofList_append,
    String.utf8ByteSize_append, hDigits, length_toDigits,
    integerLength]
  by_cases hSign : i < 0
  · rw [if_pos hSign, if_pos hSign]
    rfl
  · rw [if_neg hSign, if_neg hSign]
    rfl

------------------------------------------------------------
-- Containers
------------------------------------------------------------

/- Elements have a byte for each lead and their own bytes. -/
theorem utf8ByteSize_ofItems
    (lead : String)
    (v : Value)
    (vs : List Value) :
    (ofItems lead (v :: vs)).utf8ByteSize =
      lead.utf8ByteSize + vs.length +
        itemsSize (v :: vs) := by
  induction vs generalizing lead v with
  | nil =>
      simp [ofItems, itemsSize, size]
  | cons w ws ih =>
      have hComma : ",".utf8ByteSize = 1 := by decide
      rw [ofItems, String.utf8ByteSize_append, ih, hComma,
        String.utf8ByteSize_append]
      simp only [itemsSize, size, List.length_cons]
      omega

/- Members have a byte for each lead and their own bytes. -/
theorem utf8ByteSize_ofMembers
    (lead : String)
    (m : String × Value)
    (ms : List (String × Value)) :
    (ofMembers lead (m :: ms)).utf8ByteSize =
      lead.utf8ByteSize + ms.length +
        membersSize (m :: ms) := by
  have hColon : ":".utf8ByteSize = 1 := by decide
  induction ms generalizing lead m with
  | nil =>
      rcases m with ⟨k, v⟩
      simp only [ofMembers, String.utf8ByteSize_append,
        utf8ByteSize_ofString, hColon, membersSize, size,
        String.utf8ByteSize_empty, List.length_nil]
      omega
  | cons n ns ih =>
      rcases m with ⟨k, v⟩
      have hComma : ",".utf8ByteSize = 1 := by decide
      rw [ofMembers, String.utf8ByteSize_append, ih, hComma]
      simp only [String.utf8ByteSize_append,
        utf8ByteSize_ofString, hColon, membersSize, size,
        List.length_cons]
      omega

/- A sequence has two marks, separators and elements. -/
theorem size_sequence (items : List Value) :
    size (.sequence items) =
      2 + (items.length - 1) + itemsSize items := by
  have hOpen : "[".utf8ByteSize = 1 := by decide
  have hClose : "]".utf8ByteSize = 1 := by decide
  rw [size, ofValue, String.utf8ByteSize_append,
    String.utf8ByteSize_append, hOpen, hClose]
  cases items with
  | nil => rfl
  | cons v vs =>
      rw [utf8ByteSize_ofItems, List.length_cons,
        String.utf8ByteSize_empty]
      omega

/- A mapping has two marks, separators and members. -/
theorem size_mapping (members : List (String × Value)) :
    size (.mapping members) =
      2 + (members.length - 1) + membersSize members := by
  have hOpen : "\x7b".utf8ByteSize = 1 := by decide
  have hClose : "\x7d".utf8ByteSize = 1 := by decide
  rw [size, ofValue, String.utf8ByteSize_append,
    String.utf8ByteSize_append, hOpen, hClose]
  cases members with
  | nil => rfl
  | cons m ms =>
      rw [utf8ByteSize_ofMembers, List.length_cons,
        String.utf8ByteSize_empty]
      omega

end Canonical

end SignedMetadata
