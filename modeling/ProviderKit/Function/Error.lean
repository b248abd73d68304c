import ProviderKit.Diagnostic

-- Errors of function calls. A call has no diagnostics; it fails with one error at most, so
-- several are told as one.

namespace ProviderKit

/-- Why a function call failed. A call reports one error at most, about one of its
arguments, counted from zero, or about the call as a whole. -/
structure FuncError where
  text : String
  argument : Option Nat
  deriving DecidableEq

namespace FuncError

/-- An error about the call as a whole. -/
def ofCall (text : String) : FuncError := ⟨text, none⟩

/-- An error about one argument. -/
def ofArgument (position : Nat) (text : String) : FuncError := ⟨text, some position⟩

/-- Two errors as one: the texts on lines of their own, and the first argument that is
named. -/
def join : Option FuncError → FuncError → FuncError
  | none, second => second
  | some first, second => ⟨first.text ++ "\n" ++ second.text, first.argument.or second.argument⟩

/-- Any number of errors as one. -/
def joinAll (errors : List FuncError) : Option FuncError :=
  errors.foldl (fun joined e => some (join joined e)) none

/-- The text of a diagnostic as an error of a call. -/
def ofDiagnostic (d : Diagnostic) : FuncError :=
  .ofCall (match d.detail with
    | some detail => d.summary ++ ": " ++ detail
    | none => d.summary)

/-- The errors among diagnostics as one error of a call; warnings are dropped. -/
def ofDiagnostics (ds : Diagnostics) : Option FuncError := joinAll (ds.errors.map ofDiagnostic)

end FuncError

end ProviderKit
