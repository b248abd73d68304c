import ProviderKit.PrivateState.ProviderData
import ProviderKit.Text.Base64
import ProviderKit.Json.Printer

-- Private state: what a resource instance carries between planning and applying, hidden
-- from the user. It is stored as one JSON object that gives the Base64 text of each value.

namespace ProviderKit

structure PrivateState where
  /-- Entries of the framework, whose keys start with a period. -/
  framework : Keyed Bytes
  provider : ProviderData
  deriving DecidableEq

namespace PrivateState

def empty : PrivateState := ⟨[], .empty⟩

/-- Private state that holds only what a provider stored. -/
def ofProvider (d : ProviderData) : PrivateState := ⟨[], d⟩

def isEmpty (s : PrivateState) : Bool := s.framework.isEmpty && s.provider.isEmpty

def defectNotice : String :=
  "This is always a problem with Hemmer or the Hemmer plugin framework. Please report this to the provider developer."

/-! ## Decoding -/

/-- The bytes of each entry, if every value is a Base64 text. -/
def unwrap : Keyed Json → Option (Keyed Bytes)
  | [] => some []
  | (key, .string s) :: rest => do
    let raw ← Base64.decode s.toList
    return (key, raw) :: (← unwrap rest)
  | _ :: _ => none

def undecodable (fault : Json.Fault) : Diagnostic :=
  .error "Error Decoding Private State"
    ("An error was encountered when decoding private state: " ++ fault.message ++ ".\n\n"
      ++ defectNotice)

def invalidStored (key : String) (problem : ValueProblem) : Diagnostic :=
  .error "Error Decoding Private State"
    ("An error was encountered when validating private state value.\nThe value being supplied for key "
      ++ Text.quoted key ++ " is not valid " ++ problem.name ++ ".\n\n" ++ defectNotice)

/-- Take entries in one by one, each with its owner; the first that may not be stored
ends it. -/
def takeIn (s : PrivateState) : Keyed Bytes → Except Diagnostic PrivateState
  | [] => .ok s
  | (key, raw) :: rest =>
    match hv : valueProblem? raw with
    | some problem => .error (invalidStored key problem)
    | none =>
      if hk : isFrameworkKey key = true then
        takeIn { s with framework := Keyed.insert s.framework key raw } rest
      else
        takeIn { s with provider := s.provider.store key raw ⟨by simpa using hk, hv⟩ } rest

/-- Decode private state. No bytes are the empty state. An object whose values are not
Base64 texts was not written here, and is passed over without a word. -/
def decode (bytes : Bytes) : PrivateState × Diagnostics :=
  if bytes = [] then (empty, [])
  else
    match Json.parseObjectBytes bytes with
    | .error fault => (empty, [undecodable fault])
    | .ok entries =>
      match unwrap entries with
      | none => (empty, [])
      | some raw =>
        match takeIn empty raw with
        | .ok s => (s, [])
        | .error d => (empty, [d])

/-! ## Encoding -/

def invalidEncoded (key : String) (problem : ValueProblem) : Diagnostic :=
  .error "Error Encoding Private State"
    ("An error was encountered when validating private state value. The value associated with key "
      ++ Text.quoted key ++ " is not valid " ++ problem.name ++ ".\n\n" ++ defectNotice)

/-- The entries as texts; empty values are left out, and the first that may not be stored
ends it. -/
def wrap (envelope : Keyed Json) : Keyed Bytes → Except Diagnostic (Keyed Json)
  | [] => .ok envelope
  | (key, raw) :: rest =>
    if raw = [] then wrap envelope rest
    else
      match valueProblem? raw with
      | some problem => .error (invalidEncoded key problem)
      | none => wrap (Keyed.insert envelope key (.string (String.ofList (Base64.encode raw)))) rest

/-- Encode private state. The empty state is no bytes at all. -/
def encode (s : PrivateState) : Bytes × Diagnostics :=
  match wrap [] (s.framework ++ s.provider.entries) with
  | .error d => ([], [d])
  | .ok [] => ([], [])
  | .ok envelope => (Bytes.ofText (Json.object envelope).render, [])

end PrivateState

end ProviderKit
