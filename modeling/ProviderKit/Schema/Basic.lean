import ProviderKit.Value.Basic

-- Schemas: what a configuration, a plan or a state of one kind of thing is made of. A
-- schema is a block; a block has attributes and nested blocks; an attribute has a type,
-- or attributes of its own. The parameter `β` is what an attribute carries beside its
-- description, such as what the provider wants done when a change is planned.

namespace ProviderKit

/-! ## Types -/

inductive AttributeType where
  | string
  | int64
  | float64
  | number
  | bool
  | list (element : AttributeType)
  | set (element : AttributeType)
  | map (element : AttributeType)
  | object (fields : List (String × AttributeType))
  /-- Any value. -/
  | dynamic

/-- How the objects nested under a name are collected. -/
inductive NestingMode where
  | single | list | set | map
  deriving DecidableEq

def NestingMode.name : NestingMode → String
  | .single => "single"
  | .list => "list"
  | .set => "set"
  | .map => "map"

/-! ## Attributes -/

/-- How an attribute may be used. -/
structure Flags where
  required : Bool
  optional : Bool
  /-- The provider may decide the value. -/
  computed : Bool
  sensitive : Bool
  deriving DecidableEq

mutual
structure Attribute (β : Type) where
  /-- Without meaning when there are nested attributes. -/
  type : AttributeType
  flags : Flags
  description : Option String
  nested : Option (NestedAttributes β)
  /-- The value planned when the configuration has none. -/
  default : Option Value
  behaviour : β

/-- The attributes of the objects nested under an attribute. -/
structure NestedAttributes (β : Type) where
  mode : NestingMode
  attributes : List (String × Attribute β)
end

/-- A default is declared. -/
def Attribute.hasDefault {β : Type} (a : Attribute β) : Bool := a.default.isSome

/-! ## Blocks -/

mutual
structure Block (β : Type) where
  attributes : List (String × Attribute β)
  blocks : List (String × NestedBlock β)
  description : Option String

structure NestedBlock (β : Type) where
  block : Block β
  mode : NestingMode
  minItems : UInt32
  /-- Zero sets no limit. -/
  maxItems : UInt32
end

/-- The schema of one kind of thing. Its version says which stored states fit it. -/
structure Schema (β : Type) where
  version : Int
  root : Block β

/-- A schema as it is written down, with nothing attached to its attributes. -/
abbrev PlainSchema := Schema Unit

def Block.empty {β : Type} : Block β := ⟨[], [], none⟩

def Schema.empty {β : Type} : Schema β := ⟨0, .empty⟩

/-! ## Forgetting and changing what attributes carry -/

section

variable {β γ : Type} (f : β → γ)

mutual
def Attribute.mapBehaviour : Attribute β → Attribute γ
  | ⟨type, flags, description, nested, default, behaviour⟩ =>
    ⟨type, flags, description, mapNested nested, default, f behaviour⟩
def mapNested : Option (NestedAttributes β) → Option (NestedAttributes γ)
  | none => none
  | some ⟨mode, attributes⟩ => some ⟨mode, mapAttributes attributes⟩
def mapAttributes : List (String × Attribute β) → List (String × Attribute γ)
  | [] => []
  | (name, a) :: rest => (name, a.mapBehaviour) :: mapAttributes rest
end

mutual
def Block.mapBehaviour : Block β → Block γ
  | ⟨attributes, blocks, description⟩ =>
    ⟨mapAttributes f attributes, mapBlocks blocks, description⟩
def mapBlocks : List (String × NestedBlock β) → List (String × NestedBlock γ)
  | [] => []
  | (name, ⟨block, mode, minItems, maxItems⟩) :: rest =>
    (name, ⟨block.mapBehaviour, mode, minItems, maxItems⟩) :: mapBlocks rest
end

def Schema.mapBehaviour (s : Schema β) : Schema γ := ⟨s.version, s.root.mapBehaviour f⟩

end

/-- The schema with nothing attached to its attributes. -/
def Schema.plain {β : Type} (s : Schema β) : PlainSchema := s.mapBehaviour fun _ => ()

/-! ## Nodes -/

/-- What the schema has at a position of a value. -/
inductive Node (β : Type) where
  /-- The object of a block: the root, or one object of a block collection. -/
  | block (b : Block β)
  /-- The position of a nested block, with all its objects. -/
  | nestedBlock (b : NestedBlock β)
  /-- The position of an attribute. -/
  | attr (a : Attribute β)
  /-- One object of a nested attribute collection. -/
  | nestedObject (attributes : List (String × Attribute β))

/-- What a node asks of the value at its position, and what it says about the positions
right below. -/
inductive View (β : Type) where
  | object (attributes : List (String × Attribute β)) (blocks : List (String × NestedBlock β))
  | list (element : Node β)
  | set (element : Node β)
  | map (element : Node β)
  /-- The contents have a type, and no nodes of their own. -/
  | atomic (type : AttributeType)

namespace Node

variable {β : Type}

/-- The view of objects with some attributes and blocks, collected by a mode. -/
def collected (mode : NestingMode) (attributes : List (String × Attribute β))
    (blocks : List (String × NestedBlock β)) (element : Node β) : View β :=
  match mode with
  | .single => .object attributes blocks
  | .list => .list element
  | .set => .set element
  | .map => .map element

def view : Node β → View β
  | .block b => .object b.attributes b.blocks
  | .nestedObject attributes => .object attributes []
  | .nestedBlock b => collected b.mode b.block.attributes b.block.blocks (.block b.block)
  | .attr a =>
    match a.nested with
    | none => .atomic a.type
    | some n => collected n.mode n.attributes [] (.nestedObject n.attributes)

/-- The node of a name in an object; attributes are looked up before blocks. -/
def member? (attributes : List (String × Attribute β)) (blocks : List (String × NestedBlock β))
    (name : String) : Option (Node β) :=
  match Keyed.get? attributes name with
  | some a => some (.attr a)
  | none => (Keyed.get? blocks name).map .nestedBlock

end Node

end ProviderKit
