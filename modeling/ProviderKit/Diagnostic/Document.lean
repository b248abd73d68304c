import ProviderKit.Diagnostic
import ProviderKit.Path.Document

-- Diagnostics as JSON documents. They are written with their path as messages show it, and
-- read with their path step by step.

namespace ProviderKit

def Severity.name : Severity → String
  | .error => "error"
  | .warning => "warning"

def Diagnostic.toJson (d : Diagnostic) : Json :=
  Json.ofEntries
    ([("severity", .string d.severity.name), ("summary", .string d.summary)]
      ++ (match d.detail with
        | some detail => [("detail", .string detail)]
        | none => [])
      ++ (match d.path with
        | some path => [("path", .string path.display)]
        | none => []))

def Diagnostics.toJson (ds : Diagnostics) : Json := .array (ds.map Diagnostic.toJson)

/-- A diagnostic without a severity is an error. -/
def Diagnostic.ofJson (j : Json) : Diagnostic where
  severity := if (j.get? "severity").bind Json.asText? = some "warning" then .warning else .error
  summary := ((j.get? "summary").bind Json.asText?).getD ""
  detail := (j.get? "detail").bind Json.asText?
  path := (j.get? "path").bind Path.ofJson?

def Diagnostics.ofJson (j : Json) : Diagnostics := (j.asItems?.getD []).map Diagnostic.ofJson

end ProviderKit
