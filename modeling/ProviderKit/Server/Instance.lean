import ProviderKit.Server.Rpc

-- Fresh instances: every request works on a new instance of the type it names, which was
-- given its data first. There is none when something that was reported is an error, be it
-- about another declaration of the kind.

namespace ProviderKit.Server

variable {σ δ : Type}

/-- A resource type, as its actions and its schema. -/
def freshResource : String → Rpc σ δ (Option (Resource.Actions σ × ActiveSchema σ)) :=
  Rpc.fresh resourceSlot (·.configure) Resource.Actions.within

/-- A data source type, as its actions and its schema. -/
def freshDataSource : String → Rpc σ δ (Option (DataSource.Actions σ × ActiveSchema σ)) :=
  Rpc.fresh dataSourceSlot (·.configure) DataSource.Actions.within

/-- An ephemeral resource type, as its actions and its schema. -/
def freshEphemeral : String → Rpc σ δ (Option (EphemeralResource.Actions σ × ActiveSchema σ)) :=
  Rpc.fresh ephemeralSlot (·.configure) EphemeralResource.Actions.within

/-- A state store type, as its actions and its schema. -/
def freshStore : String → Rpc σ δ (Option (StateStore.Actions σ δ × ActiveSchema σ)) :=
  Rpc.fresh stateStoreSlot (·.configure) StateStore.Actions.within

end ProviderKit.Server
