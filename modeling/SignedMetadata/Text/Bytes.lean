/-
  Text as a sequence of UTF-8 bytes.
-/

namespace SignedMetadata.Text

------------------------------------------------------------
-- Bytes of a Text
------------------------------------------------------------

/- The UTF-8 bytes of a text. -/
def bytes (text : String) : List UInt8 :=
  text.toByteArray.data.toList

/- The text that bytes encode, when they are valid UTF-8. -/
def ofBytes? (bytes : List UInt8) : Option String :=
  String.fromUTF8? ⟨bytes.toArray⟩

/- Bytes of joined texts are joined bytes. -/
theorem bytes_append (s t : String) :
    bytes (s ++ t) = bytes s ++ bytes t := by
  simp [bytes]

end SignedMetadata.Text
