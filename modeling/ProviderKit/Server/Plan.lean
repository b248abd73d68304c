import ProviderKit.Server.Instance
import ProviderKit.Server.Deferral
import ProviderKit.Plan.Defaults
import ProviderKit.Plan.Modify
import ProviderKit.Path.Normalize

-- Planning a change of a managed resource. The proposal gets its defaults, then what the
-- provider decides becomes unknown, then plan modifiers and the resource itself have their
-- say. The first stage that reports an error is the last one to run.

namespace ProviderKit.Server

variable {σ δ : Type}

/-- A change to be planned; its values have an entry for everything the schema declares. -/
structure Change where
  config : Described
  prior : Described
  proposed : Described
  providerMeta : Described
  client : ClientCapabilities

/-- A plan as far as it has come. -/
structure Planned where
  plan : Described
  requiresReplace : List Path
  privateState : PrivateState
  deferred : Option Deferral

/-! ## Values of the request -/

/-- An absent value is null, and objects are filled out to their schema. -/
def normalized (schema : PlainSchema) (v : Option Value) : Rpc σ δ (Option Value) :=
  match schema.fillAbsent (v.getD .null) with
  | .ok v => return some v
  | .error fault => do
    Rpc.report [fault.asFrameworkError "Error normalizing plan request values"]
    return none

/-- The change that a request asks for. All its values are looked at, so each that does not
fit the schema is reported. -/
def requestedChange (schema : PlainSchema) (r : PlanRequest) : Rpc σ δ (Option Change) := do
  let config ← normalized schema r.config
  let prior ← normalized schema r.priorState
  let proposed ← normalized schema r.proposedState
  let providerMeta ← Rpc.providerMeta r.providerMeta
  match config, prior, proposed with
  | some config, some prior, some proposed =>
    return some ⟨⟨config, schema⟩, ⟨prior, schema⟩, ⟨proposed, schema⟩, providerMeta, r.client⟩
  | _, _, _ => return none

/-! ## Stages -/

def unmarkable (fault : Fault) : Diagnostic :=
  .error "Error modifying plan"
    ("There was an unexpected error updating the plan. This is always a problem with the provider. Please report the following to the provider developer:\n\n"
      ++ fault.message)

/-- The plan before the provider has its say, or as far as it came. What is destroyed stays
null, and what does not change keeps its computed values. -/
def draft (c : Change) : Value × Option Diagnostic :=
  let schema := c.proposed.schema
  if c.proposed.isNull then (c.proposed.raw, none)
  else
    match schema.applyDefaults c.config.raw c.proposed.raw with
    | .error fault =>
      (c.proposed.raw, some (fault.asFrameworkError "Error applying attribute default values"))
    | .ok filled =>
      if filled.isNull || filled.same c.prior.raw then (filled, none)
      else
        match schema.markUnknowns c.config.raw filled with
        | .error fault => (filled, some (unmarkable fault))
        | .ok marked => (marked, none)

/-- Run the plan modifiers of the attributes, unless the resource is destroyed. -/
def modifyAttributes (schema : ActiveSchema σ) (c : Change) (p : Planned) : Rpc σ δ Planned :=
  if p.plan.isNull then pure p
  else do
    let m ← Rpc.act
      (schema.modifyPlan ⟨c.config, p.plan, c.prior, c.providerMeta, p.privateState.provider⟩)
    Rpc.noteAll (fun call => Callback.modifyAttribute call.request)
      (fun call => call.response.diagnostics) m.calls
    return { p with
      plan := m.plan
      requiresReplace := m.requiresReplace
      privateState := { p.privateState with provider := m.privateData } }

/-- Let the resource change the plan as a whole, if it wants to. -/
def modifyWhole (actions : Resource.Actions σ) (c : Change) (p : Planned) : Rpc σ δ Planned :=
  match actions.modifyPlan with
  | none => pure p
  | some modifyPlan => do
    let request : Resource.ModifyPlanRequest :=
      { config := c.config, plan := p.plan, state := c.prior, providerMeta := c.providerMeta
        privateData := p.privateState.provider, client := c.client
        requiresReplace := p.requiresReplace }
    let answer ← Rpc.call (.modifyPlan request) (modifyPlan request) (·.diagnostics)
    checkDeferral "Resource" c.client answer.deferred
    return {
      plan := answer.plan
      requiresReplace := answer.requiresReplace
      privateState := { p.privateState with provider := answer.privateData }
      deferred := answer.deferred }

def plannedOnDestroy : Diagnostic :=
  .error "Unexpected Planned Resource State on Destroy"
    "The provider unexpectedly returned resource state data when the resource was planned for destruction. This is always an issue with the provider and should be reported to the provider developers.\n\nEnsure all resource plan modifiers do not attempt to change resource plan data from being a null value if the request plan is a null value."

/-- Plan a change, stage by stage. -/
def planStages (actions : Resource.Actions σ) (schema : ActiveSchema σ) (c : Change)
    (prior : PrivateState) : Rpc σ δ Planned := do
  let (drafted, problem) := draft c
  Rpc.report problem.toList
  let p : Planned := ⟨{ c.proposed with raw := drafted }, [], prior, none⟩
  if problem.isSome then return p
  if let some deferred ← providerDeferral c.client then
    return { p with deferred := some deferred }
  let p ← modifyAttributes schema c p
  if ← Rpc.failed then return p
  let p ← modifyWhole actions c p
  if ← Rpc.failed then return p
  if c.proposed.isNull && !p.plan.isNull then
    Rpc.report [plannedOnDestroy]
    return p
  return { p with requiresReplace := Path.normalize p.requiresReplace }

/-- Plan a create, an update or a destroy. -/
def planResource (r : PlanRequest) : Rpc σ δ PlanResult := do
  let some (actions, schema) ← freshResource r.typeName | return .none
  if ← Rpc.failed then return .none
  let prior ← Rpc.decodePrivate r.privateBytes
  if ← Rpc.failed then return .none
  let some change ← requestedChange schema.plain r | return .none
  let p ← planStages actions schema change prior
  let privateBytes ← Rpc.threadPrivate r.privateBytes prior p.privateState
  return ⟨p.plan.raw, p.requiresReplace, privateBytes, p.deferred⟩

end ProviderKit.Server
