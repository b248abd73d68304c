import ProviderKit.Schema.Resolve
import ProviderKit.Value.Access

-- A configuration, plan or state together with the schema that describes it. Positions are
-- read and written by paths that the schema knows.

namespace ProviderKit

structure Described where
  raw : Value
  schema : PlainSchema

namespace Described

/-- Nothing, described by a schema. -/
def ofSchema (schema : PlainSchema) : Described := ⟨.null, schema⟩

def isNull (d : Described) : Bool := d.raw.isNull

/-- The value at a path of the schema; where the value has no such position, null. -/
def get (d : Described) (path : Path) : Except Fault Value := do
  let _ ← d.schema.nodeAt path
  return d.raw.atPathOrNull path

/-- Write the value at a path of the schema. -/
def set (d : Described) (path : Path) (v : Value) : Described × Except Fault Unit :=
  match d.schema.nodeAt path with
  | .error fault => (d, .error fault)
  | .ok _ =>
    let w := d.raw.setAtPath path v
    ({ d with raw := w.value }, w.outcome)

end Described

end ProviderKit
