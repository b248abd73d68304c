-- Byte strings, and the text that some of them are. A byte string is text when it is
-- valid UTF-8; going from text to bytes and back loses nothing. A byte string that is no
-- text may start as one, up to the first byte that belongs to no character.

namespace ProviderKit

/-- A byte string. -/
abbrev Bytes := List UInt8

namespace Bytes

/-- The UTF-8 bytes of a text. -/
def ofText (text : String) : Bytes := text.toByteArray.data.toList

/-- The text whose UTF-8 bytes these are, when there is one. -/
def toText? (bytes : Bytes) : Option String := String.fromUTF8? ⟨bytes.toArray⟩

@[simp] theorem toText?_ofText (text : String) : toText? (ofText text) = some text := by
  simp [toText?, ofText, String.fromUTF8?, text.isValidUTF8, String.fromUTF8]

/-! ## Text at the front -/

/-- The character whose UTF-8 bytes stand at the front, when there is one. -/
def firstChar? (bytes : Bytes) : Option Char :=
  ByteArray.utf8DecodeChar? ⟨(bytes.take 4).toArray⟩ 0

/-- How many bytes come before the first one that belongs to no character. -/
def textLength : Bytes → Nat
  | [] => 0
  | b :: rest =>
    match firstChar? (b :: rest) with
    | some c => c.utf8Size + textLength (rest.drop (c.utf8Size - 1))
    | none => 0
termination_by bytes => bytes.length

end Bytes

end ProviderKit
