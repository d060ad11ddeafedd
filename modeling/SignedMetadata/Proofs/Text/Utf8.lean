import SignedMetadata.Text.Bytes

/-
  Texts and their UTF-8 bytes.

  A text is determined by its bytes, and one text starts
  another as soon as its bytes start the bytes of the other:
  no character begins inside the bytes of another one.

  Main declarations:
    * `bytes_inj`
    * `ofBytes?_bytes`
    * `bytes_eq_flatMap`
    * `toList_prefix_of_bytes_prefix`
-/

namespace SignedMetadata.Text

------------------------------------------------------------
-- Bytes of a Text
------------------------------------------------------------

/- The bytes of a text as an array. -/
theorem toByteArray_eq_of_bytes
    {s : String}
    {bs : List UInt8}
    (hBytes : bytes s = bs) :
    s.toByteArray = ⟨bs.toArray⟩ := by
  subst hBytes
  simp [bytes]

/- Only equal texts have equal bytes. -/
theorem bytes_inj
    {s t : String} :
    bytes s = bytes t ↔ s = t := by
  constructor
  · intro hBytes
    apply String.toByteArray_inj.mp
    rw [toByteArray_eq_of_bytes hBytes]
    exact (toByteArray_eq_of_bytes rfl).symm
  · intro hEq
    rw [hEq]

/- The bytes of a text are valid and decode to the text. -/
theorem ofBytes?_bytes (s : String) :
    ofBytes? (bytes s) = some s := by
  have hArray : s.toByteArray = ⟨(bytes s).toArray⟩ :=
    toByteArray_eq_of_bytes rfl
  rw [ofBytes?, ← hArray, String.fromUTF8?,
    dif_pos s.isValidUTF8]
  rfl

/- The bytes of a text are those of its characters. -/
theorem bytes_eq_flatMap (s : String) :
    bytes s = s.toList.flatMap String.utf8EncodeChar := by
  rw [bytes, ← String.utf8Encode_toList, List.utf8Encode]
  simp

/- What starts the bytes of a text starts the text. -/
theorem toList_prefix_of_bytes_prefix
    {s t : String}
    (hPrefix : bytes s <+: bytes t) :
    s.toList <+: t.toList := by
  rcases hPrefix with ⟨rest, hRest⟩
  apply List.isPrefix_of_utf8Encode_append_eq_utf8Encode
    (⟨rest.toArray⟩ : ByteArray)
  rw [String.utf8Encode_toList, String.utf8Encode_toList,
    toByteArray_eq_of_bytes hRest.symm]
  apply ByteArray.ext
  simp [bytes]

end SignedMetadata.Text
