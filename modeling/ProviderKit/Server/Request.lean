import ProviderKit.Function.Definition
import ProviderKit.Capability

-- What callers ask of a server. Values that a request leaves out are absent, which is not
-- always the same as null; private state travels as bytes.

namespace ProviderKit.Server

structure ValidateRequest where
  typeName : String
  config : Option Value

structure ConfigureProviderRequest where
  config : Option Value
  callerVersion : String
  client : ClientCapabilities

structure ReadRequest where
  typeName : String
  currentState : Option Value
  privateBytes : Bytes
  providerMeta : Option Value
  client : ClientCapabilities

structure PlanRequest where
  typeName : String
  /-- Absent or null on create. -/
  priorState : Option Value
  /-- Absent or null on destroy. -/
  proposedState : Option Value
  config : Option Value
  privateBytes : Bytes
  providerMeta : Option Value
  client : ClientCapabilities

structure ApplyRequest where
  typeName : String
  /-- Absent or null on create. -/
  priorState : Option Value
  /-- Absent or null on destroy. -/
  plannedState : Option Value
  config : Option Value
  /-- Private state as planning left it. -/
  privateBytes : Bytes
  providerMeta : Option Value

structure UpgradeRequest where
  typeName : String
  /-- The version of the schema that the state was stored under. -/
  version : Int
  stored : Option Json

structure ImportRequest where
  typeName : String
  id : String
  client : ClientCapabilities

structure ReadDataRequest where
  typeName : String
  config : Option Value
  providerMeta : Option Value
  client : ClientCapabilities

structure OpenRequest where
  typeName : String
  config : Option Value
  client : ClientCapabilities

/-- Names an ephemeral resource that is open, by its private state. -/
structure OpenedRequest where
  typeName : String
  privateBytes : Bytes

structure ConfigureStoreRequest where
  typeName : String
  config : Option Value
  client : ClientCapabilities

structure CallRequest where
  name : String
  arguments : List Value

end ProviderKit.Server

namespace ProviderKit

/-- A request to a server. -/
inductive Request where
  | getMetadata
  | getProviderSchema
  | validateProvider (config : Option Value)
  | configureProvider (r : Server.ConfigureProviderRequest)
  | validateResource (r : Server.ValidateRequest)
  | readResource (r : Server.ReadRequest)
  | planResource (r : Server.PlanRequest)
  | applyResource (r : Server.ApplyRequest)
  | createResource (r : Server.ApplyRequest)
  | updateResource (r : Server.ApplyRequest)
  | deleteResource (r : Server.ApplyRequest)
  | upgradeResource (r : Server.UpgradeRequest)
  | importResource (r : Server.ImportRequest)
  | validateDataSource (r : Server.ValidateRequest)
  | readDataSource (r : Server.ReadDataRequest)
  | validateEphemeral (r : Server.ValidateRequest)
  | openEphemeral (r : Server.OpenRequest)
  | renewEphemeral (r : Server.OpenedRequest)
  | closeEphemeral (r : Server.OpenedRequest)
  | getFunctions
  | callFunction (r : Server.CallRequest)
  | validateStore (r : Server.ValidateRequest)
  | configureStore (r : Server.ConfigureStoreRequest)
  | getStates (typeName : String)
  | readState (typeName stateId : String)
  | writeState (typeName stateId : String) (document : Bytes)
  | lockState (typeName stateId operation : String)
  | unlockState (typeName stateId lockId : String)
  | deleteState (typeName stateId : String)

end ProviderKit
