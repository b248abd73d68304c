import ProviderKit.Plan.Defaults

-- The second stage of a plan: what the provider decides, and nobody configured, is not
-- known until the change has been carried out.

namespace ProviderKit

variable {β : Type}

/-- The provider decides the attribute, and no default decides it first. -/
def Attribute.isLeftToProvider (a : Attribute β) : Bool := a.flags.computed && !a.hasDefault

/-- The planned value at one position. The root stays, and so does what is configured;
where the schema has no node, only the inside of an atomic attribute is left alone. -/
def unknownAt (config : Value) (path : Path) (node : Except Fault (Node β)) (v : Value) :
    Except Fault Value :=
  if path.isRoot then .ok v
  else if config.configures path then .ok v
  else
    match node with
    | .ok (.attr a) => .ok (if a.isLeftToProvider then .unknown else v)
    | .ok _ => .ok v
    | .error fault => if fault.isSchemaless then .ok v else .error fault

/-- Make unknown what the provider decides and the configuration leaves out. -/
def Schema.markUnknowns (s : Schema β) (config plan : Value) : Except Fault Value := do
  let filled ← s.fillAbsent plan
  s.transform .topDown (unknownAt config) filled

end ProviderKit
