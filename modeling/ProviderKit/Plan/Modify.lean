import ProviderKit.Provider.Declaration

-- Running the plan modifiers of a schema over a plan. Attributes are visited in the order
-- of their names, parents before what is nested in them, and the modifiers of one
-- attribute run in the order they were declared. An error stops the modifiers of its
-- attribute and of everything nested below; all other attributes go on.

namespace ProviderKit

/-- The change whose plan is modified. -/
structure ModifyRequest where
  config : Described
  plan : Described
  state : Described
  providerMeta : Described
  privateData : ProviderData

/-- One run of a modifier. -/
structure ModifierCall (σ : Type) where
  modifier : PlanModifier σ
  request : ModifierRequest
  response : ModifierResponse

/-- The runs of modifiers so far, in order. All that they leave behind, the planned values
apart, can be read off it. -/
abbrev ModifierLog (σ : Type) := List (ModifierCall σ)

namespace ModifierLog

variable {σ : Type}

/-- The attributes whose change replaces the resource. -/
def requiresReplace (log : ModifierLog σ) : List Path :=
  log.filterMap fun call =>
    if call.response.requiresReplace then some call.request.path else none

def diagnostics (log : ModifierLog σ) : Diagnostics := log.flatMap (·.response.diagnostics)

/-- The private data that the last run left, or what there was before the first. -/
def privateData (log : ModifierLog σ) (start : ProviderData) : ProviderData :=
  match log.getLast? with
  | some call => call.response.privateData
  | none => start

end ModifierLog

/-- The outcome of running all modifiers. -/
structure Modified (σ : Type) where
  plan : Described
  requiresReplace : List Path
  diagnostics : Diagnostics
  privateData : ProviderData
  calls : ModifierLog σ

abbrev ModifyM (σ : Type) := StateT (ModifierLog σ) (StateM σ)

namespace Modify

variable {σ : Type}

/-! ## One attribute -/

/-- Run the modifiers of one attribute until one of them fails; the answer has the planned
value they leave and whether one failed. -/
def runModifiers (r : ModifyRequest) (path : Path) (config state : Value) :
    List (PlanModifier σ) → Value → ModifyM σ (Value × Bool)
  | [], plan => pure (plan, false)
  | m :: ms, plan => do
    let log ← get
    let request : ModifierRequest :=
      { path, configValue := config, planValue := plan, stateValue := state, config := r.config
        plan := r.plan, state := r.state, providerMeta := r.providerMeta
        privateData := log.privateData r.privateData }
    let response ← m.modify request
    set (log ++ [⟨m, request, response⟩])
    if Diagnostics.hasError response.diagnostics then return (response.planValue, true)
    else runModifiers r path config state ms response.planValue

/-! ## Collections -/

/-- What is done to one nested object, given its path and its configured, prior and planned
values. -/
abbrev VisitObject (σ : Type) := Path → Value → Value → Value → ModifyM σ Value

/-- Visit the items of a planned list, each with the configured and prior item at its
index. -/
def visitItems (visit : VisitObject σ) (path : Path) (config state : Value) :
    Nat → List Value → ModifyM σ (List Value)
  | _, [] => pure []
  | i, x :: xs => do
    let y ← visit (path.index i) (config.itemOrNull i) (state.itemOrNull i) x
    return y :: (← visitItems visit path config state (i + 1) xs)

/-- Visit the elements of a planned set, each with the configured and prior element that
equals it. -/
def visitElements (visit : VisitObject σ) (path : Path) (config state : Value) :
    List Value → ModifyM σ (List Value)
  | [] => pure []
  | x :: xs => do
    let y ← visit (path.element x) (config.elementOrNull x) (state.elementOrNull x) x
    return y :: (← visitElements visit path config state xs)

/-- Visit the entries of a planned map, each with the configured and prior entry under its
key. -/
def visitEntries (visit : VisitObject σ) (path : Path) (config state : Value) :
    List (String × Value) → ModifyM σ (List (String × Value))
  | [] => pure []
  | (k, x) :: es => do
    let y ← visit (path.key k) (config.entryOrNull k) (state.entryOrNull k) x
    return (k, y) :: (← visitEntries visit path config state es)

/-- Visit the objects nested in some mode; a plan that is no such collection is left as it
is. -/
def visitCollection (mode : NestingMode) (visit : VisitObject σ) (path : Path)
    (config state plan : Value) : ModifyM σ Value :=
  match mode, plan with
  | .single, plan => visit path config state plan
  | .list, .list xs => do return .list (← visitItems visit path config state 0 xs)
  | .set, .list xs => do return .list (← visitElements visit path config state xs)
  | .map, .map es => do return .map (← visitEntries visit path config state es)
  | _, plan => pure plan

/-- Visit the entries of a planned object; a plan that is no object is left as it is. -/
def onObject (visit : Keyed Value → ModifyM σ (Keyed Value)) : Value → ModifyM σ Value
  | .map es => do return .map (← visit es)
  | plan => pure plan

/-! ## Attributes and blocks -/

/-- Put a planned value back; an entry that was absent stays so unless it has become
something. -/
def putBack (es : Keyed Value) (name : String) (before : Option Value) (after : Value) :
    Keyed Value :=
  if before.isNone && after.isNull then es else Keyed.insert es name after

mutual
/-- Run the modifiers of an attribute, and of what is nested in it. -/
def visitAttribute (r : ModifyRequest) : Attribute (Behaviour σ) → VisitObject σ
  | ⟨_, _, _, nested, _, behaviour⟩, path, config, state, plan => do
    let (plan, failed) ← runModifiers r path config state behaviour.planModifiers plan
    if failed then return plan
    else
      match nested with
      | none => return plan
      | some ⟨mode, attributes⟩ =>
        visitCollection mode
          (fun path config state plan => onObject (visitAttributes r attributes path config state) plan)
          path config state plan

/-- Run the modifiers of the attributes of an object. -/
def visitAttributes (r : ModifyRequest) :
    List (String × Attribute (Behaviour σ)) → Path → Value → Value → Keyed Value →
      ModifyM σ (Keyed Value)
  | [], _, _, _, es => pure es
  | (name, a) :: rest, path, config, state, es => do
    let before := Keyed.get? es name
    let after ← visitAttribute r a (path.field name) (config.entryOrNull name) (state.entryOrNull name)
      (before.getD .null)
    visitAttributes r rest path config state (putBack es name before after)
end

mutual
/-- Run the modifiers of a block: its attributes, then its nested blocks. -/
def visitBlock (r : ModifyRequest) : Block (Behaviour σ) → VisitObject σ
  | ⟨attributes, blocks, _⟩, path, config, state, plan =>
    onObject (fun es => do
      let es ← visitAttributes r attributes path config state es
      visitBlocks r blocks path config state es) plan

/-- Run the modifiers of the nested blocks of an object; absent blocks stay absent. -/
def visitBlocks (r : ModifyRequest) :
    List (String × NestedBlock (Behaviour σ)) → Path → Value → Value → Keyed Value →
      ModifyM σ (Keyed Value)
  | [], _, _, _, es => pure es
  | (name, ⟨b, mode, _, _⟩) :: rest, path, config, state, es => do
    match Keyed.get? es name with
    | none => visitBlocks r rest path config state es
    | some before =>
      let after ← visitCollection mode (visitBlock r b) (path.field name) (config.entryOrNull name)
        (state.entryOrNull name) before
      visitBlocks r rest path config state (Keyed.insert es name after)
end

end Modify

/-- Run every plan modifier of a schema over a plan. -/
def Schema.modifyPlan {σ : Type} (s : ActiveSchema σ) (r : ModifyRequest) :
    StateM σ (Modified σ) := do
  let (raw, log) ←
    (Modify.visitBlock r s.root .root r.config.raw r.state.raw r.plan.raw).run []
  return {
    plan := { r.plan with raw := raw }
    requiresReplace := log.requiresReplace
    diagnostics := log.diagnostics
    privateData := log.privateData r.privateData
    calls := log }

end ProviderKit
