import ProviderKit.Provider.Resource
import ProviderKit.Provider.DataSource
import ProviderKit.Provider.EphemeralResource
import ProviderKit.Provider.StateStore
import ProviderKit.Function.Definition

-- Providers: what one declares, and how it is configured.

namespace ProviderKit

/-! ## Functions -/

/-- The outcome of a function; when there is an error, there is no result. -/
structure FunctionOutcome where
  result : Value
  error : Option FuncError

structure ProviderFunction (σ : Type) where
  name : StateM σ String
  define : StateM σ (FunctionDefinition × Diagnostics)
  run : Arguments → StateM σ FunctionOutcome

/-! ## Configuration -/

structure ConfigureRequest where
  config : Described
  /-- The version of the caller. -/
  callerVersion : String
  client : ClientCapabilities

/-- What a configured provider hands to its instances, kind by kind, and whether all they do
is put off. -/
structure SharedData (δ : Type) where
  resource : Option δ
  dataSource : Option δ
  ephemeralResource : Option δ
  stateStore : Option δ
  deferred : Option Deferral

/-- A provider that was not configured hands out nothing. -/
def SharedData.none {δ : Type} : SharedData δ := ⟨.none, .none, .none, .none, .none⟩

/-! ## Providers -/

structure ProviderMetadata where
  typeName : String
  version : String

/-- A provider. Its code acts on a world `σ`, and it hands data of type `δ` to instances. -/
structure Provider (σ δ : Type) where
  metadata : StateM σ ProviderMetadata
  declare : StateM σ (Declaration σ)
  /-- The schema of what configurations say about the provider apart from its own
  configuration. -/
  metaSchema : Option PlainSchema
  configure : ConfigureRequest → StateM σ (SharedData δ × Diagnostics)
  validateConfig : Option (ConfigCheck σ)
  resources : StateM σ (List (Factory σ (Resource σ δ)))
  dataSources : StateM σ (List (Factory σ (DataSource σ δ)))
  ephemeralResources : StateM σ (List (Factory σ (EphemeralResource σ δ)))
  functions : StateM σ (List (Factory σ (ProviderFunction σ)))
  stateStores : StateM σ (List (Factory σ (StateStore σ δ)))

end ProviderKit
