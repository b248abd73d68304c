import ProviderKit.PrivateState.Basic
import ProviderKit.Described
import ProviderKit.Capability
import ProviderKit.Json.ByteString

-- The journal that scripted providers write: every call into their code, with what it was
-- given. It is the whole world that they act on.

namespace ProviderKit.Scripted

structure JournalEntry where
  call : String
  fields : List (String × Json)

/-- The calls so far, in order. -/
abbrev Journal := List JournalEntry

def JournalEntry.toJson (e : JournalEntry) : Json :=
  Json.ofEntries (("call", .string e.call) :: e.fields)

/-- Write a call down. -/
def log (call : String) (fields : List (String × Json)) : StateM Journal Unit :=
  modify fun journal => journal ++ [⟨call, fields⟩]

/-! ## Fields -/

namespace Field

def value (name : String) (v : Value) : String × Json := (name, v.toWire)

def described (name : String) (d : Described) : String × Json := value name d.raw

def text (name t : String) : String × Json := (name, .string t)

def flag (name : String) (b : Bool) : String × Json := (name, .bool b)

def textOrNull (name : String) : Option String → String × Json
  | some t => text name t
  | none => (name, .null)

/-- Private data, as it is stored. -/
def privateData (d : ProviderData) : String × Json :=
  ("private", Json.ofBytes (PrivateState.ofProvider d).encode.1)

def client (c : ClientCapabilities) : String × Json := flag "deferral_allowed" c.deferralAllowed

end Field

end ProviderKit.Scripted
