import ProviderKit.Schema.Basic
import ProviderKit.Fault

-- What a schema has at a path.

namespace ProviderKit.Schema

variable {β : Type}

/-- Take one step from a node. Objects have members by name, and each collection is
entered by its own kind of step. -/
def stepFrom (whole walked : Path) (node : Node β) (step : Step) : Except Fault (Node β) :=
  match node.view, step with
  | .object attributes blocks, .field name =>
    match Node.member? attributes blocks name with
    | some member => .ok member
    | none => .error (.notInSchema walked name)
  | .list element, .index _ => .ok element
  | .set element, .element _ => .ok element
  | .map element, .key _ => .ok element
  | .atomic _, _ => .error (.insideAtomic whole)
  | _, step => .error (.invalidStep walked step.display)

/-- Take steps from a node, naming in the fault how far they led. -/
def follow (whole walked : Path) : Node β → List Step → Except Fault (Node β)
  | node, [] => .ok node
  | node, step :: steps => do
    let next ← stepFrom whole walked node step
    follow whole (walked.push step) next steps

/-- The node at a path. -/
def nodeAt (s : Schema β) (path : Path) : Except Fault (Node β) :=
  follow path .root (.block s.root) path.steps

/-- The attribute at a path. -/
def attributeAt (s : Schema β) (path : Path) : Except Fault (Attribute β) := do
  match ← s.nodeAt path with
  | .attr a => return a
  | .nestedBlock _ => throw (.isBlock path)
  | .block _ | .nestedObject _ => throw (.insideAtomic path)

end ProviderKit.Schema
