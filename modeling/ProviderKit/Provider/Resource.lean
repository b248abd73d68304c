import ProviderKit.Provider.Declaration

-- Managed resources: what the provider is asked to do with them, and what it answers. Each
-- request says what the answer is when the provider does nothing.

namespace ProviderKit.Resource

/-! ## Changing -/

/-- What is left after a resource was created, updated or deleted. -/
structure Changed where
  state : Described
  privateData : ProviderData
  diagnostics : Diagnostics

structure CreateRequest where
  config : Described
  plan : Described
  providerMeta : Described
  privateData : ProviderData

/-- Before it is created, a resource has no state. -/
def CreateRequest.start (r : CreateRequest) : Changed :=
  ⟨.ofSchema r.plan.schema, r.privateData, []⟩

structure UpdateRequest where
  config : Described
  plan : Described
  state : Described
  providerMeta : Described
  privateData : ProviderData

/-- An update is taken to reach the plan. -/
def UpdateRequest.start (r : UpdateRequest) : Changed := ⟨r.plan, r.privateData, []⟩

structure DeleteRequest where
  state : Described
  providerMeta : Described
  privateData : ProviderData

/-- Until it is deleted, a resource keeps its state. -/
def DeleteRequest.start (r : DeleteRequest) : Changed := ⟨r.state, r.privateData, []⟩

/-! ## Reading -/

structure ReadRequest where
  state : Described
  privateData : ProviderData
  providerMeta : Described
  client : ClientCapabilities

/-- The state of the remote object; it is null when the object is gone. -/
structure Refreshed where
  state : Described
  privateData : ProviderData
  diagnostics : Diagnostics
  deferred : Option Deferral

/-- Nothing is known to have changed. -/
def ReadRequest.start (r : ReadRequest) : Refreshed := ⟨r.state, r.privateData, [], none⟩

/-! ## Planning -/

structure ModifyPlanRequest where
  /-- Null when the resource is destroyed. -/
  config : Described
  plan : Described
  /-- Null when the resource is created. -/
  state : Described
  providerMeta : Described
  privateData : ProviderData
  client : ClientCapabilities
  /-- The attributes whose change replaces the resource, as far as planned. -/
  requiresReplace : List Path

structure PlanModified where
  plan : Described
  requiresReplace : List Path
  privateData : ProviderData
  diagnostics : Diagnostics
  deferred : Option Deferral

/-- The plan stays. -/
def ModifyPlanRequest.start (r : ModifyPlanRequest) : PlanModified :=
  ⟨r.plan, r.requiresReplace, r.privateData, [], none⟩

/-! ## Upgrading stored state -/

structure UpgradeRequest where
  /-- The state as it was stored. -/
  stored : Json
  /-- The stored state under the schema it was written with, if that schema is known. -/
  state : Option Described
  /-- The schema to upgrade to. -/
  schema : PlainSchema

/-- An upgrade gives a document or a state; the document counts first. -/
structure Upgraded where
  document : Option Json
  state : Described
  diagnostics : Diagnostics

/-- Nothing is upgraded yet. -/
def UpgradeRequest.start (r : UpgradeRequest) : Upgraded := ⟨none, .ofSchema r.schema, []⟩

/-- Brings state that was stored under one older version up to the current one. -/
structure StateUpgrader (σ : Type) where
  priorSchema : Option PlainSchema
  upgrade : UpgradeRequest → StateM σ Upgraded

/-! ## Importing -/

structure ImportRequest where
  /-- What the user calls the object. -/
  id : String
  client : ClientCapabilities
  schema : PlainSchema

structure Imported where
  state : Described
  privateData : ProviderData
  diagnostics : Diagnostics
  deferred : Option Deferral

/-- Nothing is imported yet. -/
def ImportRequest.start (r : ImportRequest) : Imported := ⟨.ofSchema r.schema, .empty, [], none⟩

/-- Write the name that the user gave into an attribute. It serves resources that are
imported by one of their attributes. -/
def ImportRequest.passId (r : ImportRequest) (path : Path) (answer : Imported) : Imported :=
  let (state, outcome) := answer.state.set path (.string r.id)
  let reported : Diagnostics :=
    match outcome with
    | .ok _ => []
    | .error fault => [(fault.asProviderError "Resource Import Passthrough Error").atPath path]
  { answer with state := state, diagnostics := answer.diagnostics ++ reported }

/-! ## The contract -/

/-- What an instance of a resource can do. -/
structure Actions (σ : Type) where
  create : CreateRequest → StateM σ Changed
  read : ReadRequest → StateM σ Refreshed
  update : UpdateRequest → StateM σ Changed
  delete : DeleteRequest → StateM σ Changed
  modifyPlan : Option (ModifyPlanRequest → StateM σ PlanModified)
  validateConfig : Option (ConfigCheck σ)
  /-- Lists the upgraders by the version they upgrade from. -/
  upgraders : Option (StateM σ (List (Int × StateUpgrader σ)))
  importState : Option (ImportRequest → StateM σ Imported)

/-- Which of the optional actions an instance has. -/
structure Capabilities where
  configure : Bool
  modifyPlan : Bool
  validateConfig : Bool
  upgradeState : Bool
  importState : Bool
  deriving DecidableEq

/-- The actions, without optional ones that were not found at registration. -/
def Actions.within {σ : Type} (a : Actions σ) (c : Capabilities) : Actions σ :=
  { a with
    modifyPlan := onlyIf c.modifyPlan a.modifyPlan
    validateConfig := onlyIf c.validateConfig a.validateConfig
    upgraders := onlyIf c.upgradeState a.upgraders
    importState := onlyIf c.importState a.importState }

end ProviderKit.Resource

namespace ProviderKit

/-- A resource type of a provider. -/
abbrev Resource (σ δ : Type) := DeclaredType σ δ (Resource.Actions σ)

/-- What an instance can do beyond what every resource must. -/
def Resource.capabilities {σ δ : Type} (r : Resource σ δ) : Resource.Capabilities where
  configure := r.configure.isSome
  modifyPlan := r.actions.modifyPlan.isSome
  validateConfig := r.actions.validateConfig.isSome
  upgradeState := r.actions.upgraders.isSome
  importState := r.actions.importState.isSome

end ProviderKit
