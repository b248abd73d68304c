import ProviderKit.Server.Instance
import ProviderKit.Server.Deferral

-- Importing: taking over remote objects that were made by other means.

namespace ProviderKit.Server

variable {σ δ : Type}

def importNotImplemented : Diagnostic :=
  .error "Resource Import Not Implemented"
    "This resource does not support import. Please contact the provider developer for additional information."

def missingImportState : Diagnostic :=
  .error "Missing Resource Import State"
    "An unexpected error was encountered when importing the resource. This is always a problem with the provider. Please give the following information to the provider developer:\n\nResource ImportState method returned no State in response. If import is intentionally not supported, remove the Resource type ImportState method or return an error."

/-- Take over a remote object that the user names. -/
def importResource (r : ImportRequest) : Rpc σ δ ImportResult := do
  let some (actions, schema) ← freshResource r.typeName | return .none
  if ← Rpc.failed then return .none
  if let some deferred ← providerDeferral r.client then return ⟨[], some deferred⟩
  let some importState := actions.importState
    | Rpc.report [importNotImplemented]
      return .none
  let request : Resource.ImportRequest := ⟨r.id, r.client, schema.plain⟩
  let answer ← Rpc.call (.importState request) (importState request) (·.diagnostics)
  checkDeferral "Resource" r.client answer.deferred
  if ← Rpc.failed then return .none
  if let some deferred := answer.deferred then return ⟨[], some deferred⟩
  if answer.state.isNull then
    Rpc.report [missingImportState]
    return .none
  let privateBytes ← Rpc.encodePrivate (.ofProvider answer.privateData)
  return ⟨[⟨r.typeName, answer.state.raw, privateBytes⟩], none⟩

end ProviderKit.Server
