import ProviderKit.Server.Instance
import ProviderKit.Server.Deferral

-- Opening ephemeral resources, renewing them while they are open, and closing them.

namespace ProviderKit.Server

variable {σ δ : Type}

/-- Open an ephemeral resource. -/
def openEphemeral (r : OpenRequest) : Rpc σ δ OpenResult := do
  let some (actions, schema) ← freshEphemeral r.typeName | return .none
  if ← Rpc.failed then return .none
  let config : Described := ⟨r.config.getD .null, schema.plain⟩
  if let some deferred ← providerDeferral r.client then
    let some result ← putOff config | return .none
    return { OpenResult.none with result := result, deferred := some deferred }
  let request : EphemeralResource.OpenRequest := ⟨config, r.client⟩
  let answer ←
    Rpc.call (.openResource request) (actions.openResource request) (·.diagnostics)
  checkDeferral "Ephemeral Resource" r.client answer.deferred
  if ← Rpc.failed then return .none
  let privateBytes ← Rpc.encodePrivate (.ofProvider answer.privateData)
  return ⟨answer.result.raw, privateBytes, answer.renewAt, answer.deferred⟩

/-- The actions of an open ephemeral resource with its private state, unless something is
wrong already. -/
def heldEphemeral (r : OpenedRequest) :
    Rpc σ δ (Option (EphemeralResource.Actions σ × PrivateState)) := do
  let some (actions, _) ← freshEphemeral r.typeName | return none
  let privateState ← Rpc.decodePrivate r.privateBytes
  if ← Rpc.failed then return none
  return some (actions, privateState)

def renewNotImplemented : Diagnostic :=
  .error "Ephemeral Resource Renew Not Implemented"
    "This ephemeral resource does not support renew. This is always an issue with the provider and should be reported to the provider developers."

/-- Renew an open ephemeral resource. -/
def renewEphemeral (r : OpenedRequest) : Rpc σ δ RenewResult := do
  let some (actions, privateState) ← heldEphemeral r | return .none
  let some renew := actions.renew
    | Rpc.report [renewNotImplemented]
      return .none
  let answer ←
    Rpc.call (.renew privateState.provider) (renew privateState.provider) (·.diagnostics)
  let privateBytes ← Rpc.encodePrivate { privateState with provider := answer.privateData }
  return ⟨privateBytes, answer.renewAt⟩

def closeNotImplemented : Diagnostic :=
  .error "Ephemeral Resource Close Not Implemented"
    "This ephemeral resource does not support close. This is always an issue with the provider and should be reported to the provider developers."

/-- Close an open ephemeral resource. -/
def closeEphemeral (r : OpenedRequest) : Rpc σ δ Unit := do
  let some (actions, privateState) ← heldEphemeral r | return
  let some close := actions.close
    | Rpc.report [closeNotImplemented]
  let _ ← Rpc.call (.close privateState.provider) (close privateState.provider) id

end ProviderKit.Server
