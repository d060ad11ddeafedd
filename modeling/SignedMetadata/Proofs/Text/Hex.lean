import SignedMetadata.Text.Hex

/-
  Bytes that are written in lowercase hex digits.

  Every byte is written by two digits, the one of its upper
  half before the one of its lower half.  So a text in hex is
  twice as long as the bytes that it writes, and holds nothing
  but digits and letters from a to f.

  Main declarations:
    * `WritesHex`
    * `writesHex_hexOfBytes`
    * `WritesHex.length_eq`
    * `WritesHex.forall_mem`
-/

namespace SignedMetadata.Text

------------------------------------------------------------
-- Digits
------------------------------------------------------------

/- The lowercase hex digits, each at the place of its value. -/
def lowerHexDigits : List Char :=
  "0123456789abcdef".toList

/- A number below sixteen is written by its digit. -/
theorem getElem?_lowerHexDigits
    {n : Nat}
    (hDigit : n < 16) :
    lowerHexDigits[n]? = some (Nat.digitChar n) := by
  have hAll :
      ∀ n < 16,
        lowerHexDigits[n]? = some (Nat.digitChar n) := by
    decide
  exact hAll n hDigit

------------------------------------------------------------
-- Bytes
------------------------------------------------------------

/- The characters are the two hex digits of each byte. -/
inductive WritesHex : List UInt8 → List Char → Prop where
| nil : WritesHex [] []
| cons
    {b : UInt8} {bytes : List UInt8}
    {upper lower : Char} {cs : List Char}
    (hUpper : lowerHexDigits[b.toNat / 16]? = some upper)
    (hLower : lowerHexDigits[b.toNat % 16]? = some lower)
    (hRest : WritesHex bytes cs) :
    WritesHex (b :: bytes) (upper :: lower :: cs)

/- Bytes are written in lowercase hex digits. -/
theorem writesHex_hexOfBytes (bytes : List UInt8) :
    WritesHex bytes (hexOfBytes bytes).toList := by
  rw [hexOfBytes, String.toList_ofList]
  induction bytes with
  | nil => exact .nil
  | cons b bytes ih =>
      have hByte := b.toNat_lt
      have hUpper :=
        getElem?_lowerHexDigits
          (show b.toNat / 16 < 16 by omega)
      have hLower :=
        getElem?_lowerHexDigits
          (show b.toNat % 16 < 16 by omega)
      rw [List.flatMap_cons]
      exact .cons hUpper hLower ih

namespace WritesHex

variable {bytes : List UInt8}
variable {cs : List Char}

/- There are two characters for each byte. -/
theorem length_eq
    (hWrites : WritesHex bytes cs) :
    cs.length = 2 * bytes.length := by
  induction hWrites with
  | nil => rfl
  | cons _ _ _ ih =>
      simp only [List.length_cons, ih]
      omega

/- All characters are lowercase hex digits. -/
theorem forall_mem
    (hWrites : WritesHex bytes cs) :
    ∀ c ∈ cs, c ∈ lowerHexDigits := by
  induction hWrites with
  | nil => exact List.forall_mem_nil _
  | cons hUpper hLower _ ih =>
      rw [List.forall_mem_cons, List.forall_mem_cons]
      exact
        ⟨List.mem_of_getElem? hUpper,
          List.mem_of_getElem? hLower, ih⟩

end WritesHex

end SignedMetadata.Text
