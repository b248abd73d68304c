import ProviderKit.Catalog.Kinds
import ProviderKit.Server.Answer

-- Servers: a provider together with all that is remembered between two requests.

namespace ProviderKit

structure ServerOptions where
  capabilities : ServerCapabilities
  /-- A configuration that puts everything off is honoured from then on. -/
  providerDeferral : Bool

def ServerOptions.standard : ServerOptions := ⟨.standard, true⟩

/-- A server and what it remembers. -/
structure Server (σ δ : Type) where
  provider : Provider σ δ
  typeName : String
  version : String
  options : ServerOptions
  metaSchema : PlainSchema
  /-- The provider's own schema, once it was declared without errors. -/
  providerSchema : Option PlainSchema
  shared : SharedData δ
  /-- Data that the state store set up last has for its instances. -/
  storeData : Option δ
  resources : Shelf σ (Resource σ δ) Resource.Capabilities (ActiveSchema σ)
  dataSources : Shelf σ (DataSource σ δ) DataSource.Capabilities (ActiveSchema σ)
  ephemeralResources :
    Shelf σ (EphemeralResource σ δ) EphemeralResource.Capabilities (ActiveSchema σ)
  functions : Shelf σ (ProviderFunction σ) Unit FunctionDefinition
  stateStores : Shelf σ (StateStore σ δ) StateStore.Capabilities (ActiveSchema σ)

namespace Server

variable {σ δ : Type}

/-- A server for a provider, before its first request. -/
def start (provider : Provider σ δ) (options : ServerOptions) : StateM σ (Server σ δ) := do
  let about ← provider.metadata
  return {
    provider := provider
    typeName := about.typeName
    version := about.version
    options := options
    metaSchema := provider.metaSchema.getD .empty
    providerSchema := none
    shared := .none
    storeData := none
    resources := .empty
    dataSources := .empty
    ephemeralResources := .empty
    functions := .empty
    stateStores := .empty }

/-- A slot of a server for one kind of declarations: how the provider lists them, on which
shelf they are kept, and the data that instances are given. -/
structure Slot (σ δ ι κ η : Type) where
  kind : Kind σ ι κ η
  declarations : Provider σ δ → StateM σ (List (Factory σ ι))
  shelf : Server σ δ → Shelf σ ι κ η
  put : Server σ δ → Shelf σ ι κ η → Server σ δ
  data : Server σ δ → Option δ

def resourceSlot : Slot σ δ (Resource σ δ) Resource.Capabilities (ActiveSchema σ) where
  kind := .resources
  declarations p := p.resources
  shelf s := s.resources
  put s r := { s with resources := r }
  data s := s.shared.resource

def dataSourceSlot : Slot σ δ (DataSource σ δ) DataSource.Capabilities (ActiveSchema σ) where
  kind := .dataSources
  declarations p := p.dataSources
  shelf s := s.dataSources
  put s r := { s with dataSources := r }
  data s := s.shared.dataSource

def ephemeralSlot :
    Slot σ δ (EphemeralResource σ δ) EphemeralResource.Capabilities (ActiveSchema σ) where
  kind := .ephemeralResources
  declarations p := p.ephemeralResources
  shelf s := s.ephemeralResources
  put s r := { s with ephemeralResources := r }
  data s := s.shared.ephemeralResource

/-- Functions are given no data. -/
def functionSlot : Slot σ δ (ProviderFunction σ) Unit FunctionDefinition where
  kind := .functions
  declarations p := p.functions
  shelf s := s.functions
  put s r := { s with functions := r }
  data _ := none

/-- State stores are given what the store set up last left for them. -/
def stateStoreSlot : Slot σ δ (StateStore σ δ) StateStore.Capabilities (ActiveSchema σ) where
  kind := .stateStores
  declarations p := p.stateStores
  shelf s := s.stateStores
  put s r := { s with stateStores := r }
  data s := s.storeData

end Server

end ProviderKit
