import ProviderKit.Server.Instance
import ProviderKit.Schema.Validate

-- Checking configurations: against their schema first, and then by the provider's own
-- check, which runs whatever the first has found.

namespace ProviderKit.Server

variable {σ δ : Type}

/-- Check a configuration by the provider's own check, if there is one. -/
def checkFurther (config : Described) (check : Option (ConfigCheck σ)) : Rpc σ δ Unit := do
  let some check := check | return
  let _ ← Rpc.call (.validateConfig config) (check config) id

/-- Check a configuration against its schema, and then by the provider's own check. -/
def checkConfig (schema : PlainSchema) (raw : Value) (check : Option (ConfigCheck σ)) :
    Rpc σ δ Unit := do
  Rpc.report (schema.validate raw)
  checkFurther ⟨raw, schema⟩ check

/-- Check the configuration of the provider. -/
def validateProvider (config : Option Value) : Rpc σ δ Unit := do
  match ← Rpc.providerSchema with
  | none => return
  | some schema =>
    let check := (← get).server.provider.validateConfig
    checkConfig schema (config.getD .null) check

/-- Check a configuration of a resource. -/
def validateResource (r : ValidateRequest) : Rpc σ δ Unit := do
  let some (actions, schema) ← freshResource r.typeName | return
  if ← Rpc.failed then return
  let some raw := r.config | return
  checkConfig schema.plain raw actions.validateConfig

/-- Check a configuration of a data source. -/
def validateDataSource (r : ValidateRequest) : Rpc σ δ Unit := do
  let some (actions, schema) ← freshDataSource r.typeName | return
  if ← Rpc.failed then return
  let some raw := r.config | return
  checkConfig schema.plain raw actions.validateConfig

/-- Check a configuration of an ephemeral resource. -/
def validateEphemeral (r : ValidateRequest) : Rpc σ δ Unit := do
  let some (actions, schema) ← freshEphemeral r.typeName | return
  if ← Rpc.failed then return
  let some raw := r.config | return
  checkConfig schema.plain raw actions.validateConfig

/-- Check a configuration of a state store, on an instance without data. -/
def validateStore (r : ValidateRequest) : Rpc σ δ Unit := do
  let some (entry, schema) ← Rpc.resolve stateStoreSlot r.typeName | return
  let some raw := r.config | return
  Rpc.report (schema.plain.validate raw)
  if entry.capabilities.validateConfig then
    let fresh ← Rpc.act entry.factory
    checkFurther ⟨raw, schema.plain⟩ fresh.actions.validateConfig

end ProviderKit.Server
