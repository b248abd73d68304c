import ProviderKit.Value.Access
import ProviderKit.Schema.FillAbsent

-- The first stage of a plan: where the configuration says nothing, an attribute's default
-- is planned. A default may hold objects whose attributes have defaults of their own;
-- those are planned in turn.

namespace ProviderKit

/-- The configuration has a value at the path, other than null. An unknown value counts as
configured. -/
def Value.configures (config : Value) (path : Path) : Bool :=
  match config.atPath path with
  | .ok v => !v.isNull
  | .error _ => false

section

variable {β : Type}

mutual
/-- How many levels the defaults along one branch can add to a value. -/
def Attribute.defaultLevels : Attribute β → Nat
  | ⟨_, _, _, nested, default, _⟩ => (default.map Value.depth).getD 0 + nestedDefaultLevels nested
def nestedDefaultLevels : Option (NestedAttributes β) → Nat
  | none => 0
  | some ⟨_, attributes⟩ => attributesDefaultLevels attributes
def attributesDefaultLevels : List (String × Attribute β) → Nat
  | [] => 0
  | (_, a) :: rest => max a.defaultLevels (attributesDefaultLevels rest)
end

mutual
def Block.defaultLevels : Block β → Nat
  | ⟨attributes, blocks, _⟩ => max (attributesDefaultLevels attributes) (blocksDefaultLevels blocks)
def blocksDefaultLevels : List (String × NestedBlock β) → Nat
  | [] => 0
  | (_, ⟨block, _, _, _⟩) :: rest => max block.defaultLevels (blocksDefaultLevels rest)
end

/-- The planned value at one position. -/
def defaultAt (config : Value) (path : Path) (node : Except Fault (Node β)) (v : Value) : Value :=
  match node with
  | .ok (.attr a) =>
    match a.default with
    | some d => if config.configures path then v else d
    | none => v
  | _ => v

/-- Write the defaults into a plan wherever the configuration has no value. -/
def Schema.applyDefaults (s : Schema β) (config plan : Value) : Except Fault Value := do
  let filled ← s.fillAbsent plan
  s.transform .topDown (fun path node v => .ok (defaultAt config path node v)) filled
    s.root.defaultLevels

end

end ProviderKit
