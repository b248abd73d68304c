import ProviderKit.Diagnostic
import ProviderKit.Value.Access

-- What a test may expect of an answer, and what is said when it is not so.

namespace ProviderKit

/-- How an answer fails an expectation. -/
inductive Unmet where
  | errors (summaries : List String)
  | noErrors
  | noMatchingError (text : String) (summaries : List String)
  | replacedOther
  | notUnknown (path : Path) (found : Value)
  | unresolved (path : Path) (fault : Fault)

namespace Unmet

/-- A list of texts in quotes. -/
def quotedList (texts : List String) : String :=
  "[" ++ String.intercalate ", " (texts.map Text.quoted) ++ "]"

/-- What is said; a difference in replaced attributes is told by the attributes alone. -/
def message : Unmet → Option String
  | .errors summaries =>
    some ("Expected no errors, but got " ++ toString summaries.length ++ " error(s): "
      ++ quotedList summaries)
  | .noErrors => some "Expected at least one error, but got none"
  | .noMatchingError text summaries =>
    some ("Expected an error containing '" ++ text ++ "', but no matching error found. Errors: "
      ++ quotedList summaries)
  | .replacedOther => none
  | .notUnknown path found =>
    some ("Expected unknown at " ++ path.display ++ ", found " ++ found.display)
  | .unresolved path fault =>
    some ("Expected unknown at " ++ path.display ++ ", but the path does not resolve: "
      ++ fault.message)

end Unmet

namespace Expect

def errorSummaries (ds : Diagnostics) : List String := ds.errors.map (·.summary)

/-- There is no error. -/
def noErrors (ds : Diagnostics) : Except Unmet Unit :=
  if ds.hasError then .error (.errors (errorSummaries ds)) else .ok ()

/-- There is an error. -/
def hasErrors (ds : Diagnostics) : Except Unmet Unit :=
  if ds.hasError then .ok () else .error .noErrors

/-- A text occurs in another. -/
def occurs (part : List Char) : List Char → Bool
  | [] => part.isEmpty
  | c :: cs => part.isPrefixOf (c :: cs) || occurs part cs

/-- The summary of some error contains a text. -/
def errorContains (ds : Diagnostics) (text : String) : Except Unmet Unit :=
  if (errorSummaries ds).any fun summary => occurs text.toList summary.toList then .ok ()
  else .error (.noMatchingError text (errorSummaries ds))

/-- Equal path by path. -/
def samePaths : List Path → List Path → Bool
  | [], [] => true
  | p :: ps, q :: qs => p.same q && samePaths ps qs
  | _, _ => false

/-- Exactly these attributes replace the resource, in this order. -/
def requiresReplace (actual expected : List Path) : Except Unmet Unit :=
  if samePaths actual expected then .ok () else .error .replacedOther

/-- The value at a path is unknown. -/
def unknownAt (v : Value) (path : Path) : Except Unmet Unit :=
  match v.atPath path with
  | .ok found => if found.isUnknown then .ok () else .error (.notUnknown path found)
  | .error fault => .error (.unresolved path fault)

end Expect

end ProviderKit
