import ProviderKit.Server.Rpc

-- Describing a provider: the names of all that it declares, its schemas, and the
-- definitions of its functions.

namespace ProviderKit.Server

variable {σ δ : Type}

/-- Report the names of all that is declared. -/
def getMetadata : Rpc σ δ MetadataResult := do
  let capabilities := (← get).server.options.capabilities
  let resources ← Rpc.listNames resourceSlot
  let dataSources ← Rpc.listNames dataSourceSlot
  let ephemeralResources ← Rpc.listNames ephemeralSlot
  let stateStores ← Rpc.listNames stateStoreSlot
  let functions ← Rpc.listNames functionSlot
  return { capabilities, resources, dataSources, ephemeralResources, stateStores, functions }

def plainSchemas (schemas : Keyed (ActiveSchema σ)) : Keyed PlainSchema :=
  Keyed.mapValues Schema.plain schemas

/-- A schema that describes something. -/
def describesAnything (schema : PlainSchema) : Bool :=
  !schema.root.attributes.isEmpty || !schema.root.blocks.isEmpty

/-- Report every schema and every definition. -/
def getProviderSchema : Rpc σ δ SchemasResult := do
  let server := (← get).server
  let provider ← Rpc.providerSchema
  let resources ← Rpc.describeAll resourceSlot
  let dataSources ← Rpc.describeAll dataSourceSlot
  let ephemeralResources ← Rpc.describeAll ephemeralSlot
  let stateStores ← Rpc.describeAll stateStoreSlot
  let functions ← Rpc.describeAll functionSlot
  return {
    capabilities := server.options.capabilities
    provider := provider.getD .empty
    providerMeta := if describesAnything server.metaSchema then some server.metaSchema else none
    resources := plainSchemas resources
    dataSources := plainSchemas dataSources
    ephemeralResources := plainSchemas ephemeralResources
    stateStores := plainSchemas stateStores
    functions := functions }

/-- Report the definitions of all functions. -/
def getFunctions : Rpc σ δ (Keyed FunctionDefinition) := Rpc.describeAll functionSlot

end ProviderKit.Server
