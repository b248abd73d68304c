import ProviderKit.Provider.Declaration

-- Data sources: objects that a configuration reads but does not manage.

namespace ProviderKit.DataSource

structure ReadRequest where
  config : Described
  providerMeta : Described
  client : ClientCapabilities

structure Found where
  state : Described
  diagnostics : Diagnostics
  deferred : Option Deferral

/-- Nothing is found yet. -/
def ReadRequest.start (r : ReadRequest) : Found := ⟨.ofSchema r.config.schema, [], none⟩

structure Actions (σ : Type) where
  read : ReadRequest → StateM σ Found
  validateConfig : Option (ConfigCheck σ)

/-- Which of the optional actions an instance has. -/
structure Capabilities where
  configure : Bool
  validateConfig : Bool
  deriving DecidableEq

/-- The actions, without optional ones that were not found at registration. -/
def Actions.within {σ : Type} (a : Actions σ) (c : Capabilities) : Actions σ :=
  { a with validateConfig := onlyIf c.validateConfig a.validateConfig }

end ProviderKit.DataSource

namespace ProviderKit

/-- A data source type of a provider. -/
abbrev DataSource (σ δ : Type) := DeclaredType σ δ (DataSource.Actions σ)

/-- What an instance can do beyond what every data source must. -/
def DataSource.capabilities {σ δ : Type} (d : DataSource σ δ) : DataSource.Capabilities where
  configure := d.configure.isSome
  validateConfig := d.actions.validateConfig.isSome

end ProviderKit
