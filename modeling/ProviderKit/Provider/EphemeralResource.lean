import ProviderKit.Provider.Declaration

-- Ephemeral resources: values that are opened for a while, may be renewed, are closed in
-- the end, and are never stored.

namespace ProviderKit.EphemeralResource

structure OpenRequest where
  config : Described
  client : ClientCapabilities

structure Opened where
  result : Described
  privateData : ProviderData
  /-- When the caller must renew it, in seconds since the start of 1970. -/
  renewAt : Option Int
  diagnostics : Diagnostics
  deferred : Option Deferral

/-- Nothing is opened yet. -/
def OpenRequest.start (r : OpenRequest) : Opened :=
  ⟨.ofSchema r.config.schema, .empty, none, [], none⟩

structure Renewed where
  renewAt : Option Int
  privateData : ProviderData
  diagnostics : Diagnostics

/-- Renewing keeps the private data, and asks for no further renewal. -/
def Renewed.start (privateData : ProviderData) : Renewed := ⟨none, privateData, []⟩

structure Actions (σ : Type) where
  openResource : OpenRequest → StateM σ Opened
  renew : Option (ProviderData → StateM σ Renewed)
  close : Option (ProviderData → StateM σ Diagnostics)
  validateConfig : Option (ConfigCheck σ)

/-- Which of the optional actions an instance has. -/
structure Capabilities where
  configure : Bool
  renew : Bool
  close : Bool
  validateConfig : Bool
  deriving DecidableEq

/-- The actions, without optional ones that were not found at registration. -/
def Actions.within {σ : Type} (a : Actions σ) (c : Capabilities) : Actions σ :=
  { a with
    renew := onlyIf c.renew a.renew
    close := onlyIf c.close a.close
    validateConfig := onlyIf c.validateConfig a.validateConfig }

end ProviderKit.EphemeralResource

namespace ProviderKit

/-- An ephemeral resource type of a provider. -/
abbrev EphemeralResource (σ δ : Type) := DeclaredType σ δ (EphemeralResource.Actions σ)

/-- What an instance can do beyond what every ephemeral resource must. -/
def EphemeralResource.capabilities {σ δ : Type} (e : EphemeralResource σ δ) :
    EphemeralResource.Capabilities where
  configure := e.configure.isSome
  renew := e.actions.renew.isSome
  close := e.actions.close.isSome
  validateConfig := e.actions.validateConfig.isSome

end ProviderKit
