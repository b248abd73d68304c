import ProviderKit.Path.Basic
import ProviderKit.Json.Fault

-- What can go wrong between a value, a path and a schema, and with stored bytes.

namespace ProviderKit

/-- What the schema asks a value to be. -/
inductive Shape where
  | object | list | set | map
  deriving DecidableEq

def Shape.name : Shape → String
  | .object => "object"
  | .list => "list"
  | .set => "set"
  | .map => "map"

inductive Fault where
  /-- The step does not apply to the value at the path walked so far. -/
  | invalidStep (walked : Path) (step : String)
  /-- The path leads into an attribute whose contents have no schema of their own. -/
  | insideAtomic (path : Path)
  /-- The path leads to a block where an attribute was meant. -/
  | isBlock (path : Path)
  /-- The schema has no attribute or block of that name there. -/
  | notInSchema (parent : Path) (name : String)
  /-- The value cannot be what the schema asks for. -/
  | shapeMismatch (path : Path) (expected : Shape) (found : Value.Kind)
  /-- A value that had to be known is not. -/
  | unknownValue (path : Path)
  /-- Private state cannot be written or read. -/
  | privateState (message : String)
  /-- A text is not the JSON document it should be. -/
  | serialization (fault : Json.Fault)

namespace Fault

def message : Fault → String
  | .invalidStep walked step =>
    step ++ " still remains in the path at " ++ walked.display
      ++ ": step cannot be applied to this value"
  | .insideAtomic path =>
    "path leads inside an attribute without a schema of its own: " ++ path.display
  | .isBlock path => "path leads to a block, not an attribute: " ++ path.display
  | .notInSchema parent name =>
    "no attribute or block named " ++ Text.quoted name ++ " exists in the schema at "
      ++ parent.display
  | .shapeMismatch path expected found =>
    "value at " ++ path.display ++ " is " ++ found.name ++ " but the schema expects "
      ++ expected.name
  | .unknownValue path => "unknown value at " ++ path.display ++ " cannot be represented as JSON"
  | .privateState text => "private state: " ++ text
  | .serialization fault => "Serialization error: " ++ fault.message

/-- The fault says only that no schema describes the position. -/
def isSchemaless : Fault → Bool
  | .insideAtomic _ => true
  | _ => false

/-! ## Status codes -/

/-- How a fault is reported to a remote caller. -/
inductive StatusCode where
  | invalidArgument | failedPrecondition | internal
  deriving DecidableEq

def StatusCode.number : StatusCode → Nat
  | .invalidArgument => 3
  | .failedPrecondition => 9
  | .internal => 13

/-- The status code and the message for a remote caller. -/
def status : Fault → StatusCode × String
  | .privateState text => (.invalidArgument, text)
  | .serialization fault => (.invalidArgument, (Fault.serialization fault).message)
  | .unknownValue path => (.failedPrecondition, (Fault.unknownValue path).message)
  | fault => (.internal, fault.message)

end Fault

end ProviderKit
