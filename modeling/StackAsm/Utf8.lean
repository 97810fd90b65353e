set_option autoImplicit false

/-!
# Bytes and UTF-8

Streams carry bytes, sources and messages are text. The encoding between them is UTF-8 in its
strict form: no surrogates, no overlong forms, nothing above U+10FFFF.

## Main definitions

* `StackAsm.Bytes` — byte strings.
* `StackAsm.Utf8.encode` — the bytes of a text.
* `StackAsm.Utf8.decode?` — the text of bytes, if they are the encoding of one.

## Main results

* `StackAsm.Utf8.decode?_encode`, `StackAsm.Utf8.encode_of_decode?` — the bytes of a text decode to
  it, and no others.
-/

namespace StackAsm

/-- A byte string, as streams and files hold it. -/
abbrev Bytes := List UInt8

namespace Utf8

/-- The UTF-8 bytes of a text. -/
def encode (text : String) : Bytes := text.toList.flatMap String.utf8EncodeChar

/-- The text whose UTF-8 encoding is `bytes`; there is none if `bytes` is no strict UTF-8. -/
def decode? (bytes : Bytes) : Option String := String.fromUTF8? bytes.toByteArray

/-- Two texts are encoded one after the other. -/
theorem encode_append (a b : String) : encode (a ++ b) = encode a ++ encode b := by
  rw [encode, String.toList_append, List.flatMap_append]
  rfl

/-- The list of bytes a text is encoded to holds the bytes the text is stored as. -/
theorem toByteArray_encode (text : String) : (encode text).toByteArray = text.toByteArray := by
  rw [← String.utf8Encode_toList]
  rfl

/-- A text that was encoded is decoded to itself. -/
theorem decode?_encode (text : String) : decode? (encode text) = some text := by
  rw [decode?, toByteArray_encode, String.fromUTF8?, dif_pos text.isValidUTF8]
  rfl

/-- Bytes that were decoded are the encoding of the text they gave. -/
theorem encode_of_decode? {bytes : Bytes} {text : String}
    (decoded : decode? bytes = some text) : encode text = bytes := by
  unfold decode? String.fromUTF8? at decoded
  split at decoded
  · cases decoded
    rw [← List.toByteArray_inj, toByteArray_encode]
    rfl
  · cases decoded

end Utf8

end StackAsm
