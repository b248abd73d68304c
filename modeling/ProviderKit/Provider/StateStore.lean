import ProviderKit.Provider.Declaration

-- State stores: places where state documents are kept, listed and locked by name.

namespace ProviderKit.StateStore

structure SetUpRequest (δ : Type) where
  config : Described
  /-- Data of the configured provider. -/
  data : Option δ
  client : ClientCapabilities

structure Actions (σ δ : Type) where
  /-- Sets the store up and gives the data for its later instances. -/
  setUp : SetUpRequest δ → StateM σ (Option δ × Diagnostics)
  getStates : StateM σ (List String × Diagnostics)
  /-- Gives the document of a state, which is empty when there is none. -/
  read (stateId : String) : StateM σ (Bytes × Diagnostics)
  write (stateId : String) (document : Bytes) : StateM σ Diagnostics
  /-- Locks a state for an operation and names the lock. -/
  lock (stateId operation : String) : StateM σ (String × Diagnostics)
  unlock (stateId lockId : String) : StateM σ Diagnostics
  deleteState (stateId : String) : StateM σ Diagnostics
  validateConfig : Option (ConfigCheck σ)

/-- Which of the optional actions an instance has. -/
structure Capabilities where
  configure : Bool
  validateConfig : Bool
  deriving DecidableEq

/-- The actions, without optional ones that were not found at registration. -/
def Actions.within {σ δ : Type} (a : Actions σ δ) (c : Capabilities) : Actions σ δ :=
  { a with validateConfig := onlyIf c.validateConfig a.validateConfig }

end ProviderKit.StateStore

namespace ProviderKit

/-- A state store type of a provider. -/
abbrev StateStore (σ δ : Type) := DeclaredType σ δ (StateStore.Actions σ δ)

/-- What an instance can do beyond what every state store must. -/
def StateStore.capabilities {σ δ : Type} (s : StateStore σ δ) : StateStore.Capabilities where
  configure := s.configure.isSome
  validateConfig := s.actions.validateConfig.isSome

end ProviderKit
