import ProviderKit.Fault

-- Diagnostics: what every answer reports beside its result. A report with an error says
-- that the request failed; reports only grow.

namespace ProviderKit

inductive Severity where
  | error | warning
  deriving DecidableEq

structure Diagnostic where
  severity : Severity
  summary : String
  detail : Option String
  path : Option Path

/-- The diagnostics of one answer, in the order they were reported. -/
abbrev Diagnostics := List Diagnostic

namespace Diagnostic

def isError (d : Diagnostic) : Bool := d.severity = .error

/-- An error with a summary and a detail. -/
def error (summary detail : String) : Diagnostic := ⟨.error, summary, some detail, none⟩

/-- A warning with a summary and a detail. -/
def warning (summary detail : String) : Diagnostic := ⟨.warning, summary, some detail, none⟩

/-- The same diagnostic at a path. -/
def atPath (d : Diagnostic) (path : Path) : Diagnostic := { d with path := some path }

/-- The same diagnostic, at a path unless it has one of its own. -/
def orAtPath (d : Diagnostic) (path : Path) : Diagnostic :=
  match d.path with
  | some _ => d
  | none => d.atPath path

end Diagnostic

namespace Diagnostics

def hasError (ds : Diagnostics) : Bool := ds.any Diagnostic.isError

def errors (ds : Diagnostics) : Diagnostics := ds.filter Diagnostic.isError

def errorCount (ds : Diagnostics) : Nat := ds.errors.length

def warningCount (ds : Diagnostics) : Nat := ds.length - ds.errorCount

@[simp] theorem hasError_nil : hasError [] = false := rfl

@[simp] theorem hasError_append (a b : Diagnostics) :
    hasError (a ++ b) = (hasError a || hasError b) := by
  simp [hasError]

end Diagnostics

namespace Fault

/-- The fault as a defect of the framework. -/
def asFrameworkError (fault : Fault) (summary : String) : Diagnostic :=
  .error summary
    ("An unexpected error was encountered while handling the request. This is always an issue in the Hemmer plugin framework and should be reported to the framework developers.\n\n"
      ++ fault.message)

/-- The fault as a defect of the provider. -/
def asProviderError (fault : Fault) (summary : String) : Diagnostic :=
  .error summary
    ("An unexpected error was encountered while handling the request. This is always an issue with the provider and should be reported to the provider developers.\n\n"
      ++ fault.message)

end Fault

end ProviderKit
