import ProviderKit.Schema.Resolve

-- Walking a value beside its schema. A walk visits every position of the value with what
-- the schema has there, and builds the value anew from what the visitor gives back.
-- Positions the schema does not describe are visited too, with a fault in place of a
-- node; visitors leave those as they are.

namespace ProviderKit

/-! ## Positions -/

/-- What is known of the schema at a position. -/
inductive Position (β : Type) where
  | described (node : Node β)
  /-- Inside an attribute without nested attributes, with its type when there is one. -/
  | atomic (type : Option AttributeType)
  /-- At a name the schema does not have. -/
  | undeclared

namespace Position

variable {β : Type}

/-- The name that the last step of a path asks for. -/
def lastName (path : Path) : String :=
  match path.last? with
  | some (.field name) => name
  | some step => step.display
  | none => ""

/-- What the visitor sees: the node, or why there is none. -/
def node (path : Path) : Position β → Except Fault (Node β)
  | .described n => .ok n
  | .atomic _ => .error (.insideAtomic path)
  | .undeclared => .error (.notInSchema (path.parent?.getD .root) (lastName path))

/-- A step to a position below, and what is known there. -/
structure Child (β : Type) where
  step : Step
  position : Position β

/-- How the entries of a map continue a position, when it may hold a map. -/
def entryChild : Position β → Option (String → Child β)
  | .described n =>
    match n.view with
    | .object attributes blocks => some fun name =>
      match Node.member? attributes blocks name with
      | some member => ⟨.field name, .described member⟩
      | none => ⟨.field name, .undeclared⟩
    | .map element => some fun key => ⟨.key key, .described element⟩
    | .list _ | .set _ => none
    | .atomic type => some (atomicEntry (some type))
  | .atomic type => some (atomicEntry type)
  | .undeclared => some (atomicEntry none)
where
  /-- Objects have fields of their own types; every other map has keys. -/
  atomicEntry (type : Option AttributeType) (key : String) : Child β :=
    match type with
    | some (.object fields) => ⟨.field key, .atomic (Keyed.get? fields key)⟩
    | some (.map element) => ⟨.key key, .atomic (some element)⟩
    | _ => ⟨.key key, .atomic none⟩

theorem exists_atomicEntry_position (type : Option AttributeType) (k : String) :
    ∃ inner, (entryChild.atomicEntry (β := β) type k).position = .atomic inner := by
  unfold entryChild.atomicEntry
  split <;> exact ⟨_, rfl⟩

/-- How the items of a list continue a position, when it may hold a list. The elements of
sets are named by their values. -/
def itemChild : Position β → Option (Nat → Value → Child β)
  | .described n =>
    match n.view with
    | .list element => some fun i _ => ⟨.index i, .described element⟩
    | .set element => some fun _ item => ⟨.element item, .described element⟩
    | .object _ _ | .map _ => none
    | .atomic type => some (atomicItem (some type))
  | .atomic type => some (atomicItem type)
  | .undeclared => some (atomicItem none)
where
  atomicItem (type : Option AttributeType) (i : Nat) (item : Value) : Child β :=
    match type with
    | some (.list element) => ⟨.index i, .atomic (some element)⟩
    | some (.set element) => ⟨.element item, .atomic (some element)⟩
    | _ => ⟨.index i, .atomic none⟩

theorem exists_atomicItem_position (type : Option AttributeType) (i : Nat) (x : Value) :
    ∃ inner, (itemChild.atomicItem (β := β) type i x).position = .atomic inner := by
  unfold itemChild.atomicItem
  split <;> exact ⟨_, rfl⟩

/-- The shape that a known value at the position must have, if any. -/
def demand : Position β → Option Shape
  | .described n =>
    match n.view with
    | .object _ _ => some .object
    | .list _ => some .list
    | .set _ => some .set
    | .map _ => some .map
    | .atomic _ => none
  | .atomic _ => none
  | .undeclared => none

end Position

/-! ## Walking -/

/-- Whether a position is visited before the positions below it or after. From the top
down, the positions below are those of the value that the visitor gave back. -/
inductive WalkOrder where
  | topDown | bottomUp
  deriving DecidableEq

/-- A visitor: it is told the path, the node or why there is none, and the value. -/
abbrev Visit (β : Type) (m : Type → Type) := Path → Except Fault (Node β) → Value → m Value

section

variable {β : Type} {m : Type → Type} [Monad m] [MonadExceptOf Fault m]

/-- Apply a walk to the items of a list in order. -/
def walkItems (walk : Path → Position β → Value → m Value) (path : Path)
    (child : Nat → Value → Position.Child β) : Nat → List Value → m (List Value)
  | _, [] => pure []
  | i, x :: xs => do
    let c := child i x
    let y ← walk (path.push c.step) c.position x
    let ys ← walkItems walk path child (i + 1) xs
    return y :: ys

/-- Apply a walk to the entries of a map in the order of their keys. -/
def walkEntries (walk : Path → Position β → Value → m Value) (path : Path)
    (child : String → Position.Child β) : List (String × Value) → m (List (String × Value))
  | [] => pure []
  | (k, x) :: es => do
    let c := child k
    let y ← walk (path.push c.step) c.position x
    let ys ← walkEntries walk path child es
    return (k, y) :: ys

/-- Apply a walk to the positions right below one. Null and unknown values have none; any
other value must have the shape that the position asks for. -/
def walkBelow (walk : Path → Position β → Value → m Value) (path : Path)
    (position : Position β) (v : Value) : m Value :=
  match v with
  | .null => pure .null
  | .unknown => pure .unknown
  | .map es =>
    match position.entryChild with
    | some child => do return .map (← walkEntries walk path child es)
    | none => mismatch
  | .list xs =>
    match position.itemChild with
    | some child => do return .list (← walkItems walk path child 0 xs)
    | none => mismatch
  | .bool _ | .number _ | .string _ => mismatch
where
  mismatch : m Value :=
    match position.demand with
    | some shape => throwThe Fault (.shapeMismatch path shape v.kind)
    | none => pure v

/-- Walk the first levels of a value, counting the position it stands at; below them it is
left as it is. -/
def walkLevels (order : WalkOrder) (visit : Visit β m) : Nat → Path → Position β → Value → m Value
  | 0, _, _, v => pure v
  | levels + 1, path, position, v =>
    match order with
    | .topDown => do
      let v ← visit path (position.node path) v
      walkBelow (walkLevels order visit levels) path position v
    | .bottomUp => do
      let v ← walkBelow (walkLevels order visit levels) path position v
      visit path (position.node path) v

/-- Walk a whole value beside its schema. A visitor that gives back values deeper than
those it was given says by `growth` how many levels it adds along one branch at most. -/
def Schema.transform (s : Schema β) (order : WalkOrder) (visit : Visit β m) (v : Value)
    (growth : Nat := 0) : m Value :=
  walkLevels order visit (v.depth + growth + 1) .root (.described (.block s.root)) v

end

/-- The value has the shape of the schema: a walk that changes nothing meets no fault. -/
def Schema.checkShape {β : Type} (s : Schema β) (v : Value) : Except Fault Unit := do
  let _ ← s.transform (m := Except Fault) .topDown (fun _ _ v => .ok v) v
  return ()

end ProviderKit
