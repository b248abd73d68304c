import ProviderKit.Json.ByteString

-- Fields of documents that may leave out anything: what is missing, or is not what it
-- should be, is read as empty.

namespace ProviderKit.Json

/-- The entry under a key, or null. -/
def field (j : Json) (key : String) : Json := (j.get? key).getD .null

def textField? (j : Json) (key : String) : Option String := (j.field key).asText?

def textField (j : Json) (key : String) : String := (j.textField? key).getD ""

def flagField (j : Json) (key : String) : Bool := ((j.field key).asBool?).getD false

def intField (j : Json) (key : String) : Int := ((j.field key).asInt?).getD 0

/-- A number that counts or numbers something. -/
def indexField? (j : Json) (key : String) : Option Nat := (j.field key).asInt?.map Int.toNat

def items (j : Json) : List Json := j.asItems?.getD []

def itemsField (j : Json) (key : String) : List Json := (j.field key).items

def bytesField (j : Json) (key : String) : Bytes := (toBytes? (j.field key)).getD []

/-- An entry that must be an object to count. -/
def objectField? (j : Json) (key : String) : Option Json :=
  (j.get? key).bind fun entry => entry.asEntries?.map fun _ => entry

end ProviderKit.Json
