import ProviderKit.Json.Basic
import ProviderKit.Text.Bytes

-- Byte strings as JSON documents: text where the bytes are valid UTF-8, and otherwise the
-- hexadecimal digits of the bytes in an object that says so.

namespace ProviderKit.Json

/-- The hexadecimal digits of bytes, two for each. -/
def hexDigits (bytes : Bytes) : List Char :=
  bytes.flatMap fun b => [Nat.digitChar (b.toNat / 16), Nat.digitChar (b.toNat % 16)]

/-- The value of a hexadecimal digit. -/
def nibble? (c : Char) : Option Nat :=
  if '0' ≤ c ∧ c ≤ '9' then some (c.toNat - 48)
  else if 'a' ≤ c ∧ c ≤ 'f' then some (c.toNat - 87)
  else if 'A' ≤ c ∧ c ≤ 'F' then some (c.toNat - 55)
  else none

/-- The bytes of hexadecimal digits. -/
def unhex? : List Char → Option Bytes
  | [] => some []
  | a :: b :: rest => do
    return UInt8.ofNat ((← nibble? a) * 16 + (← nibble? b)) :: (← unhex? rest)
  | [_] => none

def ofBytes (bytes : Bytes) : Json :=
  match Bytes.toText? bytes with
  | some text => .string text
  | none => .object [("hex", .string (String.ofList (hexDigits bytes)))]

/-- The bytes that a document describes; null is no bytes. -/
def toBytes? : Json → Option Bytes
  | .null => some []
  | .string text => some (Bytes.ofText text)
  | .object es => do
    let digits ← (← Keyed.get? es "hex").asText?
    unhex? digits.toList
  | _ => none

end ProviderKit.Json
