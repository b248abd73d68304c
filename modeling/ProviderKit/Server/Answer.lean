import ProviderKit.Provider.Basic
import ProviderKit.Plan.Modify
import ProviderKit.Reconcile.Basic

-- What a server answers: a result, the diagnostics that were reported, and the calls that
-- were made into the provider's code on the way.

namespace ProviderKit.Server

/-! ## Results -/

structure MetadataResult where
  capabilities : ServerCapabilities
  resources : List String
  dataSources : List String
  ephemeralResources : List String
  stateStores : List String
  functions : List String

structure SchemasResult where
  capabilities : ServerCapabilities
  provider : PlainSchema
  /-- Absent when configurations can say nothing about the provider. -/
  providerMeta : Option PlainSchema
  resources : Keyed PlainSchema
  dataSources : Keyed PlainSchema
  ephemeralResources : Keyed PlainSchema
  stateStores : Keyed PlainSchema
  functions : Keyed FunctionDefinition

structure ReadResult where
  state : Value
  privateBytes : Bytes
  deferred : Option Deferral

structure PlanResult where
  state : Value
  requiresReplace : List Path
  privateBytes : Bytes
  deferred : Option Deferral

structure ApplyResult where
  state : Value
  privateBytes : Bytes

structure ImportedResource where
  typeName : String
  state : Value
  privateBytes : Bytes

structure ImportResult where
  /-- Empty when the import was put off. -/
  resources : List ImportedResource
  deferred : Option Deferral

structure DataResult where
  state : Value
  deferred : Option Deferral

structure OpenResult where
  result : Value
  privateBytes : Bytes
  renewAt : Option Int
  deferred : Option Deferral

structure RenewResult where
  privateBytes : Bytes
  renewAt : Option Int

/-- The result is null when there is an error. -/
structure CallResult where
  result : Value
  error : Option FuncError

def MetadataResult.none : MetadataResult := ⟨.standard, [], [], [], [], []⟩

def SchemasResult.none : SchemasResult := ⟨.standard, .empty, .none, [], [], [], [], []⟩

def ReadResult.none : ReadResult := ⟨.null, [], .none⟩

def PlanResult.none : PlanResult := ⟨.null, [], [], .none⟩

def ApplyResult.none : ApplyResult := ⟨.null, []⟩

def ImportResult.none : ImportResult := ⟨[], .none⟩

def DataResult.none : DataResult := ⟨.null, .none⟩

def OpenResult.none : OpenResult := ⟨.null, [], .none, .none⟩

def RenewResult.none : RenewResult := ⟨[], .none⟩

def CallResult.none : CallResult := ⟨.null, .none⟩

/-! ## Calls into provider code -/

/-- A callback of a provider with what it was given. -/
inductive Callback (δ : Type) where
  | configureProvider (r : ConfigureRequest)
  | configureInstance (noun typeName : String) (data : Option δ)
  | validateConfig (config : Described)
  | modifyAttribute (r : ModifierRequest)
  | compareValues (call : EqualityCall)
  | create (r : Resource.CreateRequest)
  | read (r : Resource.ReadRequest)
  | update (r : Resource.UpdateRequest)
  | delete (r : Resource.DeleteRequest)
  | modifyPlan (r : Resource.ModifyPlanRequest)
  | upgrade (r : Resource.UpgradeRequest)
  | importState (r : Resource.ImportRequest)
  | readData (r : DataSource.ReadRequest)
  | openResource (r : EphemeralResource.OpenRequest)
  | renew (privateData : ProviderData)
  | close (privateData : ProviderData)
  | setUpStore (typeName : String) (r : StateStore.SetUpRequest δ)
  | getStates
  | readState (stateId : String)
  | writeState (stateId : String) (document : Bytes)
  | lockState (stateId operation : String)
  | unlockState (stateId lockId : String)
  | deleteState (stateId : String)
  | run (arguments : Arguments)

/-- The callback carries an operation out; the others prepare, check or compare. -/
def Callback.isOperation {δ : Type} : Callback δ → Bool
  | .configureProvider _ => false
  | .configureInstance _ _ _ => false
  | .validateConfig _ => false
  | .modifyAttribute _ => false
  | .compareValues _ => false
  | _ => true

/-- A call of a callback, while a request was served. -/
structure Call (δ : Type) where
  callback : Callback δ
  /-- What had been reported before. -/
  before : Diagnostics
  /-- What the callback reported. -/
  reported : Diagnostics

/-- The answer to a request. -/
structure Answer (δ ρ : Type) where
  result : ρ
  diagnostics : Diagnostics
  calls : List (Call δ)

end ProviderKit.Server
