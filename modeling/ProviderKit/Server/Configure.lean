import ProviderKit.Server.Rpc

-- Configuring the provider and setting state stores up. Both give data that the server
-- keeps for the instances of later requests.

namespace ProviderKit.Server

variable {σ δ : Type}

def unexpectedProviderDeferral : Diagnostic :=
  .error "Invalid Deferred Provider Response"
    "Provider configured a deferred response for all resources and data sources but the request did not indicate support for deferred actions. This is always an issue with the provider and should be reported to the provider developers."

/-- Configure the provider, and remember what it hands to its instances. -/
def configureProvider (r : ConfigureProviderRequest) : Rpc σ δ Unit := do
  match ← Rpc.providerSchema with
  | none => return
  | some schema =>
    let request : ConfigureRequest :=
      ⟨⟨r.config.getD .null, schema⟩, r.callerVersion, r.client⟩
    let provider := (← get).server.provider
    let (shared, _) ←
      Rpc.call (.configureProvider request) (provider.configure request) fun answer => answer.2
    if shared.deferred.isSome && !r.client.deferralAllowed then
      Rpc.report [unexpectedProviderDeferral]
    else
      modify fun f => { f with server := { f.server with shared := shared } }

/-- Set a state store up, and remember the data for its instances. -/
def configureStore (r : ConfigureStoreRequest) : Rpc σ δ Unit := do
  let some (entry, schema) ← Rpc.resolve stateStoreSlot r.typeName | return
  let fresh ← Rpc.act entry.factory
  let data := (← get).server.shared.stateStore
  let request : StateStore.SetUpRequest δ := ⟨⟨r.config.getD .null, schema.plain⟩, data, r.client⟩
  let (storeData, _) ←
    Rpc.call (.setUpStore r.typeName request) (fresh.actions.setUp request) fun answer => answer.2
  if ← Rpc.failed then return
  modify fun f => { f with server := { f.server with storeData := storeData } }

end ProviderKit.Server
