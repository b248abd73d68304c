import ProviderKit.Server.Instance
import ProviderKit.Server.Deferral

-- Reading: bringing the state of a resource up to date with the remote object, and looking
-- up a data source.

namespace ProviderKit.Server

variable {σ δ : Type}

/-! ## Resources -/

def missingCurrentState : Diagnostic :=
  .error "Unexpected Read Request"
    "The current state for the read request was missing. This is always an issue in the Hemmer plugin framework and should be reported to the framework developers."

/-- Bring the state of a resource up to date with the remote object. -/
def readResource (r : ReadRequest) : Rpc σ δ ReadResult := do
  let some current := r.currentState
    | Rpc.report [missingCurrentState]
      return .none
  let some (actions, schema) ← freshResource r.typeName | return .none
  let prior ← Rpc.decodePrivate r.privateBytes
  if ← Rpc.failed then return .none
  if let some deferred ← providerDeferral r.client then
    return ⟨current, r.privateBytes, some deferred⟩
  let providerMeta ← Rpc.providerMeta r.providerMeta
  let request : Resource.ReadRequest :=
    ⟨⟨current, schema.plain⟩, prior.provider, providerMeta, r.client⟩
  let answer ← Rpc.call (.read request) (actions.read request) (·.diagnostics)
  checkDeferral "Resource" r.client answer.deferred
  let privateBytes ←
    Rpc.threadPrivate r.privateBytes prior { prior with provider := answer.privateData }
  let found : ReadResult := ⟨answer.state.raw, privateBytes, answer.deferred⟩
  if ← Rpc.failed then return found
  let state ← Rpc.reconcile schema current found.state
  return { found with state := state }

/-! ## Data sources -/

/-- Read a data source. -/
def readDataSource (r : ReadDataRequest) : Rpc σ δ DataResult := do
  let some (actions, schema) ← freshDataSource r.typeName | return .none
  if ← Rpc.failed then return .none
  let config : Described := ⟨r.config.getD .null, schema.plain⟩
  if let some deferred ← providerDeferral r.client then
    let some state ← putOff config | return .none
    return ⟨state, some deferred⟩
  let request : DataSource.ReadRequest := ⟨config, ← Rpc.providerMeta r.providerMeta, r.client⟩
  let answer ← Rpc.call (.readData request) (actions.read request) (·.diagnostics)
  checkDeferral "Data Source" r.client answer.deferred
  let found : DataResult := ⟨answer.state.raw, answer.deferred⟩
  if ← Rpc.failed then return found
  let state ← Rpc.reconcile schema config.raw found.state
  return { found with state := state }

end ProviderKit.Server
