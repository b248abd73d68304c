import ProviderKit.Server.Instance

-- Applying a planned change to a managed resource. Which of the prior and the planned
-- state is null says whether it is created, updated or deleted.

namespace ProviderKit.Server

variable {σ δ : Type}

/-- What is needed before a resource can be changed. -/
structure Prepared (σ : Type) where
  actions : Resource.Actions σ
  schema : ActiveSchema σ
  privateState : PrivateState

/-- Get ready to change a resource, unless something is wrong already. -/
def prepare (r : ApplyRequest) : Rpc σ δ (Option (Prepared σ)) := do
  let some (actions, schema) ← freshResource r.typeName | return none
  let privateState ← Rpc.decodePrivate r.privateBytes
  if ← Rpc.failed then return none
  return some ⟨actions, schema, privateState⟩

/-- The private state to be stored after a change. -/
def storedPrivate (p : Prepared σ) (answer : Resource.Changed) : Rpc σ δ Bytes :=
  Rpc.encodePrivate { p.privateState with provider := answer.privateData }

/-- Conclude a create or an update, which must leave a state. -/
def conclude (p : Prepared σ) (plan : Value) (missing : Diagnostic) (answer : Resource.Changed) :
    Rpc σ δ ApplyResult := do
  let privateBytes ← storedPrivate p answer
  let state := answer.state.raw
  if !(← Rpc.failed) && state.isNull then Rpc.report [missing]
  if ← Rpc.failed then return ⟨state, privateBytes⟩
  return ⟨← Rpc.reconcile p.schema plan state, privateBytes⟩

/-! ## Creating -/

def missingAfterCreate : Diagnostic :=
  .error "Missing Resource State After Create"
    "The provider unexpectedly returned no resource state after having no errors in the resource creation. This is always an issue with the provider and should be reported to the provider developers.\n\nThe resource may have been successfully created, but it is not tracked. Applying the configuration again with no other action may result in duplicate resource errors."

def createResource (r : ApplyRequest) : Rpc σ δ ApplyResult := do
  let some p ← prepare r | return .none
  let schema := p.schema.plain
  let plan := r.plannedState.getD .null
  let providerMeta ← Rpc.providerMeta r.providerMeta
  let request : Resource.CreateRequest :=
    ⟨⟨r.config.getD .null, schema⟩, ⟨plan, schema⟩, providerMeta, p.privateState.provider⟩
  let answer ← Rpc.call (.create request) (p.actions.create request) (·.diagnostics)
  conclude p plan missingAfterCreate answer

/-! ## Updating -/

def missingAfterUpdate : Diagnostic :=
  .error "Missing Resource State After Update"
    "The provider unexpectedly returned no resource state after having no errors in the resource update. This is always an issue with the provider and should be reported to the provider developers."

def updateResource (r : ApplyRequest) : Rpc σ δ ApplyResult := do
  let some p ← prepare r | return .none
  let schema := p.schema.plain
  let plan := r.plannedState.getD .null
  let providerMeta ← Rpc.providerMeta r.providerMeta
  let request : Resource.UpdateRequest :=
    { config := ⟨r.config.getD .null, schema⟩, plan := ⟨plan, schema⟩
      state := ⟨r.priorState.getD .null, schema⟩, providerMeta := providerMeta
      privateData := p.privateState.provider }
  let answer ← Rpc.call (.update request) (p.actions.update request) (·.diagnostics)
  conclude p plan missingAfterUpdate answer

/-! ## Deleting -/

/-- A resource that was deleted without errors has no state; otherwise it keeps what the
provider left. -/
def deleteResource (r : ApplyRequest) : Rpc σ δ ApplyResult := do
  let some p ← prepare r | return .none
  let providerMeta ← Rpc.providerMeta r.providerMeta
  let request : Resource.DeleteRequest :=
    ⟨⟨r.priorState.getD .null, p.schema.plain⟩, providerMeta, p.privateState.provider⟩
  let answer ← Rpc.call (.delete request) (p.actions.delete request) (·.diagnostics)
  let state := if ← Rpc.failed then answer.state.raw else .null
  return ⟨state, ← storedPrivate p answer⟩

/-! ## Any change -/

def unhandledChange : Diagnostic :=
  .error "Unhandled Resource Change"
    "Both the prior state and the planned state of the change are null, so it is neither a create, an update nor a delete. This is always an issue in the Hemmer plugin framework and should be reported to the framework developers."

/-- Apply a planned change. -/
def applyResource (r : ApplyRequest) : Rpc σ δ ApplyResult :=
  match (r.priorState.getD .null).isNull, (r.plannedState.getD .null).isNull with
  | true, false => createResource r
  | false, false => updateResource r
  | false, true => deleteResource r
  | true, true => do
    Rpc.report [unhandledChange]
    return .none

end ProviderKit.Server
