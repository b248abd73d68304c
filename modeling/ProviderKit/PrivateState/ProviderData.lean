import ProviderKit.Diagnostic
import ProviderKit.Json.Parser

-- The provider's part of private state: JSON texts under keys of its own. Keys that start
-- with a period belong to the framework, and providers can neither read nor write them.

namespace ProviderKit

/-! ## Keys and values -/

/-- The key starts with a period, so it belongs to the framework. -/
def isFrameworkKey (key : String) : Bool := key.toList.head? = some '.'

/-- What can be wrong with a stored value. -/
inductive ValueProblem where
  | utf8
  | json
  deriving DecidableEq

def ValueProblem.name : ValueProblem → String
  | .utf8 => "UTF-8"
  | .json => "JSON"

/-- What is wrong with a value to be stored: it must be one JSON text in valid UTF-8. -/
def valueProblem? (value : Bytes) : Option ValueProblem :=
  if (Bytes.toText? value).isNone then some .utf8
  else if Json.isWellFormed value then none
  else some .json

/-- What providers are told of a key that is not theirs. -/
def reportKey (key : String) : Diagnostics :=
  if isFrameworkKey key then
    [.error "Restricted Resource Private State Namespace"
      ("Using a period ('.') as a prefix for a key used in private state is not allowed.\n\nThe key "
        ++ Text.quoted key
        ++ " is invalid. Please check the key you are supplying does not use a period ('.') as a prefix.")]
  else []

/-! ## The data -/

/-- Private data of a provider. Every entry is one that the provider may have stored. -/
structure ProviderData where
  entries : Keyed Bytes
  ascending : Keyed.Ascending entries
  storable : ∀ e ∈ entries, isFrameworkKey e.1 = false ∧ valueProblem? e.2 = none

namespace ProviderData

def empty : ProviderData := ⟨[], List.Pairwise.nil, by simp⟩

instance : Inhabited ProviderData := ⟨empty⟩

@[ext] theorem ext {a b : ProviderData} (h : a.entries = b.entries) : a = b := by
  cases a; cases b; cases h; rfl

instance : DecidableEq ProviderData := fun a b =>
  if h : a.entries = b.entries then isTrue (ext h) else isFalse fun e => h (e ▸ rfl)

def isEmpty (d : ProviderData) : Bool := d.entries.isEmpty

/-- Store a value that may be stored. -/
def store (d : ProviderData) (key : String) (value : Bytes)
    (h : isFrameworkKey key = false ∧ valueProblem? value = none) : ProviderData where
  entries := Keyed.insert d.entries key value
  ascending := d.ascending.insert key value
  storable := by
    intro e he
    rcases Keyed.mem_insert he with rfl | he
    · exact h
    · exact d.storable e he

/-- Take out a key. -/
def remove (d : ProviderData) (key : String) : ProviderData where
  entries := Keyed.erase d.entries key
  ascending := d.ascending.erase key
  storable := fun e he => d.storable e (Keyed.mem_of_mem_erase he)

/-- The value stored under a key; it is empty when there is none. -/
def get (d : ProviderData) (key : String) : Bytes × Diagnostics :=
  if isFrameworkKey key then ([], reportKey key)
  else ((Keyed.get? d.entries key).getD [], [])

def invalidValue (key : String) : ValueProblem → Diagnostic
  | .utf8 =>
    .error "UTF-8 Invalid"
      ("Values stored in private state must be valid UTF-8.\n\nThe value being supplied for key "
        ++ Text.quoted key ++ " is invalid. Please verify that the value is valid UTF-8.")
  | .json =>
    .error "JSON Invalid"
      ("Values stored in private state must be valid JSON.\n\nThe value being supplied for key "
        ++ Text.quoted key ++ " is invalid. Please verify that the value is valid JSON.")

/-- Store a value under a key; an empty value takes the key out. What cannot be stored
leaves the data as it was. -/
def set (d : ProviderData) (key : String) (value : Bytes) : ProviderData × Diagnostics :=
  if hk : isFrameworkKey key = true then (d, reportKey key)
  else if value = [] then (d.remove key, [])
  else
    match hv : valueProblem? value with
    | none => (d.store key value ⟨by simpa using hk, hv⟩, [])
    | some problem => (d, [invalidValue key problem])

end ProviderData

end ProviderKit
