/-! Bytes, as they are stored, and texts in UTF-8. -/

namespace Reckon

abbrev Bytes := List UInt8

namespace Bytes

/-- The UTF-8 of a text. -/
def ofChars (text : List Char) : Bytes := text.flatMap String.utf8EncodeChar

/-- The text that bytes are the UTF-8 of. -/
def text? (bytes : Bytes) : Option String := String.fromUTF8? bytes.toByteArray

theorem isValidUTF8_ofChars (text : List Char) : (ofChars text).toByteArray.IsValidUTF8 := ⟨text, rfl⟩

theorem text?_ofChars (text : List Char) : text? (ofChars text) = some (String.ofList text) := by
  simp only [text?, String.fromUTF8?, isValidUTF8_ofChars text, ↓reduceDIte]
  rfl

end Bytes

end Reckon
