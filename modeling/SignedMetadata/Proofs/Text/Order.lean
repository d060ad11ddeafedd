import Mathlib.Algebra.Ring.Nat
import Mathlib.Data.Char
import Mathlib.Data.List.Lex
import Mathlib.Order.Lattice
import SignedMetadata.Proofs.Text.Utf8

/-
  Texts in the order of their UTF-8 bytes.

  The first byte of a character tells how many bytes follow,
  and grows with that number; what is left of the code point
  is written behind it, six bits in a byte.  So characters
  compare as their bytes do, whatever follows them, and texts
  compare as their bytes do.  A byte of ASCII is a character
  of its own.

  Main declarations:
    * `utf8EncodeChar_eq`
    * `toNat_eq_of_mem_utf8EncodeChar`
    * `utf8EncodeChar_append_lt`
    * `bytes_lt_iff`
-/

namespace SignedMetadata.Text

------------------------------------------------------------
-- Bytes of a Character
------------------------------------------------------------

variable {m n : Nat}
variable {bs bs' : List UInt8}

/- Numbers of a byte compare as the bytes. -/
theorem ofNat_lt_iff
    (hM : m < 256)
    (hN : n < 256) :
    UInt8.ofNat m < UInt8.ofNat n ↔ m < n := by
  rw [UInt8.lt_iff_toNat_lt, UInt8.toNat_ofNat',
    UInt8.toNat_ofNat', Nat.mod_eq_of_lt hM,
    Nat.mod_eq_of_lt hN]

/- The last bytes of a code point, with six bits in each. -/
def trail : Nat → Nat → List UInt8
| 0, _ => []
| count + 1, n =>
    UInt8.ofNat (n / 64 ^ count % 64 + 128) :: trail count n

/- How many bytes follow the first one. -/
def trailCount (n : Nat) : Nat :=
  if n ≤ 0x7f then 0
  else if n ≤ 0x7ff then 1
  else if n ≤ 0xffff then 2
  else 3

/- What the first byte says of the bytes that follow. -/
def leadMark : Nat → Nat
| 0 => 0
| 1 => 0xc0
| 2 => 0xe0
| _ => 0xf0

/- The number of the first byte. -/
def lead (n : Nat) : Nat :=
  n / 64 ^ trailCount n + leadMark (trailCount n)

/- Of two code points, either the first bits decide or the last. -/
theorem bits_lt
    (hLess : m < n)
    (count : Nat) :
    m / 64 ^ count < n / 64 ^ count ∨
      m / 64 ^ count = n / 64 ^ count ∧
        trail count m ++ bs < trail count n ++ bs' := by
  induction count with
  | zero =>
      rw [Nat.pow_zero, Nat.div_one, Nat.div_one]
      exact Or.inl hLess
  | succ count ih =>
      rw [Nat.pow_succ, ← Nat.div_div_eq_div_mul,
        ← Nat.div_div_eq_div_mul, trail, trail,
        List.cons_append, List.cons_append,
        List.cons_lt_cons_iff, ofNat_lt_iff (by omega)
          (by omega)]
      rcases ih with hBits | ⟨hBits, hTrail⟩
      · omega
      · rw [hBits]
        exact Or.inr ⟨rfl, Or.inr ⟨rfl, hTrail⟩⟩

/- The number of the first byte in each range. -/
theorem lead_eq (n : Nat) :
    lead n =
      if n ≤ 0x7f then n
      else if n ≤ 0x7ff then n / 64 + 0xc0
      else if n ≤ 0xffff then n / 4096 + 0xe0
      else n / 262144 + 0xf0 := by
  unfold lead trailCount
  split_ifs
  · exact Nat.div_one n
  · rfl
  · rfl
  · rfl

/- It is a number of a byte. -/
theorem lead_lt (hN : n < 0x110000) :
    lead n < 256 := by
  rw [lead_eq]
  split_ifs <;> omega

/- With more bytes behind it, the first byte is greater. -/
theorem lead_lt_lead
    (hLess : m < n)
    (hN : n < 0x110000)
    (hCount : trailCount m ≠ trailCount n) :
    lead m < lead n := by
  rw [lead_eq, lead_eq]
  unfold trailCount at hCount
  split_ifs at hCount ⊢ <;> omega

/- Code points are in order as their bytes, with any behind. -/
theorem lead_trail_lt
    (hLess : m < n)
    (hN : n < 0x110000) :
    lead m < lead n ∨
      lead m = lead n ∧
        trail (trailCount m) m ++ bs <
          trail (trailCount n) n ++ bs' := by
  by_cases hCount : trailCount m = trailCount n
  · rw [lead, lead, hCount]
    rcases bits_lt hLess (trailCount n) with
      hBits | ⟨hBits, hTrail⟩
    · exact Or.inl (Nat.add_lt_add_right hBits _)
    · exact Or.inr ⟨congrArg (· + _) hBits, hTrail⟩
  · exact Or.inl (lead_lt_lead hLess hN hCount)

/- Code points are below the end of Unicode. -/
theorem toNat_lt (c : Char) : c.toNat < 0x110000 := by
  have hValid := c.valid
  unfold UInt32.isValidChar Nat.isValidChar at hValid
  change c.val.toNat < 0x110000
  omega

/- The bytes of a character are the first and the last ones. -/
theorem utf8EncodeChar_eq (c : Char) :
    String.utf8EncodeChar c =
      UInt8.ofNat (lead c.toNat) ::
        trail (trailCount c.toNat) c.toNat := by
  have hEnd := toNat_lt c
  have hNumber : c.val.toNat = c.toNat := by
    rfl
  rw [String.utf8EncodeChar, hNumber, lead_eq, trailCount]
  generalize c.toNat = n at hEnd ⊢
  split_ifs with hOne hTwo hThree
  · rfl
  · rw [Nat.mod_eq_of_lt (show n / 64 < 32 by omega)]
    simp only [trail, Nat.pow_zero, Nat.div_one]
  · rw [Nat.mod_eq_of_lt (show n / 4096 < 16 by omega)]
    simp only [trail, Nat.pow_zero, Nat.pow_one, Nat.div_one]
  · rw [Nat.mod_eq_of_lt (show n / 262144 < 8 by omega)]
    have hTwoBytes : 64 ^ 2 = 4096 := by decide
    simp only [trail, Nat.pow_zero, Nat.pow_one, hTwoBytes,
      Nat.div_one]

/- Characters are in order as their bytes, with any behind. -/
theorem utf8EncodeChar_append_lt
    {c d : Char}
    (hLess : c < d) :
    String.utf8EncodeChar c ++ bs <
      String.utf8EncodeChar d ++ bs' := by
  have hFirst := lead_lt (toNat_lt c)
  have hSecond := lead_lt (toNat_lt d)
  rw [utf8EncodeChar_eq, utf8EncodeChar_eq,
    List.cons_append, List.cons_append,
    List.cons_lt_cons_iff, ofNat_lt_iff hFirst hSecond]
  rcases lead_trail_lt hLess (toNat_lt d) with
    hLead | ⟨hLead, hTrail⟩
  · exact Or.inl hLead
  · exact Or.inr ⟨congrArg UInt8.ofNat hLead, hTrail⟩

/- The bytes behind the first one are no ASCII. -/
theorem le_of_mem_trail
    {b : UInt8}
    {count : Nat}
    (hByte : b ∈ trail count n) :
    0x80 ≤ b.toNat := by
  induction count with
  | zero => cases hByte
  | succ count ih =>
      rcases List.mem_cons.mp hByte with rfl | hRest
      · rw [UInt8.toNat_ofNat']
        omega
      · exact ih hRest

/- A byte of ASCII is no part of another character. -/
theorem toNat_eq_of_mem_utf8EncodeChar
    {b : UInt8}
    {c : Char}
    (hByte : b ∈ String.utf8EncodeChar c)
    (hAscii : b.toNat < 0x80) :
    c.toNat = b.toNat := by
  have hFirst := lead_lt (toNat_lt c)
  rw [utf8EncodeChar_eq] at hByte
  rcases List.mem_cons.mp hByte with rfl | hRest
  · rw [UInt8.toNat_ofNat'] at hAscii ⊢
    rw [lead_eq] at hFirst hAscii ⊢
    split_ifs at hFirst hAscii ⊢ <;> omega
  · have hHigh := le_of_mem_trail hRest
    omega

------------------------------------------------------------
-- Bytes of a Text
------------------------------------------------------------

/- Lists of characters are in order as their bytes. -/
theorem flatMap_lt_of_lt
    {cs ds : List Char}
    (hLess : cs < ds) :
    cs.flatMap String.utf8EncodeChar <
      ds.flatMap String.utf8EncodeChar := by
  induction cs generalizing ds with
  | nil =>
      cases ds with
      | nil => exact absurd hLess (List.not_lt_nil _)
      | cons d ds =>
          rw [List.flatMap_cons, utf8EncodeChar_eq]
          exact List.nil_lt_cons _ _
  | cons c cs ih =>
      cases ds with
      | nil => exact absurd hLess (List.not_lt_nil _)
      | cons d ds =>
          rw [List.flatMap_cons, List.flatMap_cons]
          rcases List.cons_lt_cons_iff.mp hLess with
            hChar | ⟨rfl, hRest⟩
          · exact utf8EncodeChar_append_lt hChar
          · exact List.append_left_lt (ih hRest)

/- Texts are in order exactly as their bytes. -/
theorem bytes_lt_iff
    {s t : String} :
    bytes s < bytes t ↔ s < t := by
  rw [bytes_eq_flatMap, bytes_eq_flatMap, String.lt_iff]
  constructor
  · intro hBytes
    rcases lt_trichotomy s.toList t.toList with
      hLess | hSame | hGreater
    · exact hLess
    · rw [hSame] at hBytes
      exact absurd hBytes (List.lt_irrefl _)
    · have hOther := flatMap_lt_of_lt hGreater
      exact absurd hOther (List.lt_asymm hBytes)
  · exact flatMap_lt_of_lt

end SignedMetadata.Text
