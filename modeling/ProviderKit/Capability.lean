import ProviderKit.Schema.Codec

-- What the two sides of a request can do, and why an operation may be put off.

namespace ProviderKit

/-- What the server offers its callers. -/
structure ServerCapabilities where
  /-- Schemas may be fetched type by type. -/
  schemaOptional : Bool
  /-- Destroying is planned too. -/
  planDestroy : Bool
  deriving DecidableEq

def ServerCapabilities.standard : ServerCapabilities := ⟨true, true⟩

/-- What the caller of one request can deal with. -/
structure ClientCapabilities where
  deferralAllowed : Bool
  deriving DecidableEq

def ClientCapabilities.standard : ClientCapabilities := ⟨false⟩

/-- Why an operation was put off. -/
inductive Deferral where
  | unknown
  | resourceConfigUnknown
  | providerConfigUnknown
  | absentPrereq
  deriving DecidableEq

namespace Deferral

def standard : Deferral := .unknown

def display : Deferral → String
  | .unknown => "Unknown"
  | .resourceConfigUnknown => "ResourceConfigUnknown"
  | .providerConfigUnknown => "ProviderConfigUnknown"
  | .absentPrereq => "AbsentPrereq"

def name : Deferral → String
  | .unknown => "unknown"
  | .resourceConfigUnknown => "resource_config_unknown"
  | .providerConfigUnknown => "provider_config_unknown"
  | .absentPrereq => "absent_prereq"

def ofName? : String → Option Deferral
  | "unknown" => some .unknown
  | "resource_config_unknown" => some .resourceConfigUnknown
  | "provider_config_unknown" => some .providerConfigUnknown
  | "absent_prereq" => some .absentPrereq
  | _ => none

end Deferral

/-! ## Documents -/

/-- The name of a case that stands alone, or as the only key of an object with null. -/
def Json.plainCaseName? : Json → Option String
  | .string s => some s
  | .object [(name, .null)] => some name
  | _ => none

/-- Fields are read by name, or in order from an array of just as many. -/
def ServerCapabilities.ofJson? : Json → Option ServerCapabilities
  | .object es => do
    return ⟨← Json.flag? es "get_provider_schema_optional", ← Json.flag? es "plan_destroy"⟩
  | .array [.bool a, .bool b] => some ⟨a, b⟩
  | _ => none

def ServerCapabilities.toJson (c : ServerCapabilities) : Json :=
  .object [("get_provider_schema_optional", .bool c.schemaOptional),
    ("plan_destroy", .bool c.planDestroy)]

def ClientCapabilities.ofJson? : Json → Option ClientCapabilities
  | .object es => do return ⟨← Json.flag? es "deferral_allowed"⟩
  | .array [.bool a] => some ⟨a⟩
  | _ => none

def ClientCapabilities.toJson (c : ClientCapabilities) : Json :=
  .object [("deferral_allowed", .bool c.deferralAllowed)]

def Deferral.ofJson? : Json → Option Deferral
  | .object es => do
    let reason ← Keyed.get? es "reason"
    ofName? (← reason.plainCaseName?)
  | .array [reason] => reason.plainCaseName?.bind ofName?
  | _ => none

def Deferral.toJson (d : Deferral) : Json := .object [("reason", .string d.name)]

end ProviderKit
