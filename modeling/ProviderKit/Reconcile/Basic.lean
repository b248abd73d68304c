import ProviderKit.Provider.Declaration

-- Reconciling new values with prior ones: wherever an attribute's predicate says that the
-- two mean the same, the prior value is kept. Lists and sets pair their items by index,
-- maps and objects their entries by key; what has no counterpart stays as it is proposed.

namespace ProviderKit

/-- One run of the predicate of an attribute. -/
structure EqualityCall where
  path : Path
  prior : Value
  proposed : Value
  equal : Bool
  reported : Diagnostics

namespace EqualityCall

/-- A predicate that fails decides nothing. -/
def failed (call : EqualityCall) : Bool := Diagnostics.hasError call.reported

/-- What was reported, at the path of the attribute unless it has a path of its own. -/
def diagnostics (call : EqualityCall) : Diagnostics :=
  call.reported.map fun d => d.orAtPath call.path

end EqualityCall

/-- The predicates that ran so far, in order. -/
abbrev ReconcileM (σ : Type) := StateT (List EqualityCall) (StateM σ)

/-- A value after reconciling. -/
structure Reconciled where
  value : Value
  calls : List EqualityCall

def Reconciled.diagnostics (r : Reconciled) : Diagnostics := r.calls.flatMap EqualityCall.diagnostics

namespace Reconcile

variable {σ : Type}

/-- Run a predicate and note what it said. -/
def compare (predicate : SemanticEquality σ) (path : Path) (prior proposed : Value) :
    ReconcileM σ EqualityCall := do
  let (equal, reported) ← predicate prior proposed
  let call : EqualityCall := ⟨path, prior, proposed, equal, reported⟩
  modify fun calls => calls ++ [call]
  return call

/-- What the predicate of an attribute decides: a value, or to look at what is nested. Only
known values are compared; a predicate that fails leaves the proposed value. -/
def settle (node : Node (Behaviour σ)) (path : Path) (prior proposed : Value) :
    ReconcileM σ (Option Value) :=
  match node with
  | .attr a =>
    if !(prior.isKnown && proposed.isKnown) then pure (some proposed)
    else
      match a.behaviour.semanticEquality with
      | none => pure none
      | some predicate => do
        let call ← compare predicate path prior proposed
        if call.failed then return some proposed
        else return if call.equal then some prior else none
  | _ => pure none

/-- How the entries of a map continue a node. -/
def entryNode (node : Node (Behaviour σ)) (key : String) : Option (Step × Node (Behaviour σ)) :=
  match node.view with
  | .object attributes blocks =>
    (Node.member? attributes blocks key).map fun member => (.field key, member)
  | .map element => some (.key key, element)
  | _ => none

/-- How the items of a list continue a node. -/
def itemNode? (node : Node (Behaviour σ)) : Option (Node (Behaviour σ)) :=
  match node.view with
  | .list element => some element
  | .set element => some element
  | _ => none

mutual
/-- Reconcile the value at a node. -/
def value (node : Node (Behaviour σ)) (path : Path) (prior : Value) : Value → ReconcileM σ Value
  | .map es => do
    match ← settle node path prior (.map es), prior with
    | some v, _ => return v
    | none, .map priors => return .map (← entries (entryNode node) path priors es)
    | none, _ => return .map es
  | .list xs => do
    match ← settle node path prior (.list xs), itemNode? node, prior with
    | some v, _, _ => return v
    | none, some element, .list priors => return .list (← items element path 0 priors xs)
    | none, _, _ => return .list xs
  | v => do return (← settle node path prior v).getD v

/-- Reconcile the items of a list, as far as there are prior ones. -/
def items (element : Node (Behaviour σ)) (path : Path) (i : Nat) :
    List Value → List Value → ReconcileM σ (List Value)
  | _, [] => pure []
  | [], xs => pure xs
  | p :: ps, x :: xs => do
    let y ← value element (path.index i) p x
    return y :: (← items element path (i + 1) ps xs)

/-- Reconcile the entries of a map that have a prior one and a node. -/
def entries (child : String → Option (Step × Node (Behaviour σ))) (path : Path)
    (priors : Keyed Value) : List (String × Value) → ReconcileM σ (List (String × Value))
  | [] => pure []
  | (k, x) :: es => do
    let y ← match Keyed.get? priors k, child k with
      | some p, some (step, node) => value node (path.push step) p x
      | _, _ => pure x
    return (k, y) :: (← entries child path priors es)
end

end Reconcile

/-- Reconcile a proposed value with the prior one by the predicates of a schema. -/
def Schema.reconcile {σ : Type} (s : ActiveSchema σ) (prior proposed : Value) :
    StateM σ Reconciled := do
  let (v, calls) ← (Reconcile.value (.block s.root) .root prior proposed).run []
  return ⟨v, calls⟩

end ProviderKit
