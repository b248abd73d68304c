import ProviderKit.Server.Rpc
import ProviderKit.Schema.Walk

-- Upgrading: bringing state that was stored under an older version of a schema up to the
-- current one.

namespace ProviderKit.Server

variable {σ δ : Type}

def unreadableState (fault : Fault) : Diagnostic :=
  .error "Unable to Read Previously Saved State for UpgradeResourceState"
    ("There was an error reading the saved resource state using the prior resource schema defined for the version of the state. This is always an issue with the provider and should be reported to the provider developer.\n\n"
      ++ fault.message)

def noUpgraders (version : Int) : Diagnostic :=
  .error "Unable to Upgrade Resource State"
    ("This resource was implemented without an UpgradeState() method, however Hemmer was expecting an implementation for version "
      ++ toString version
      ++ " upgrade.\n\nThis is always an issue with the provider and should be reported to the provider developer.")

def missingUpgrader (version : Int) : Diagnostic :=
  .error "Unable to Upgrade Resource State"
    ("This resource was implemented with an UpgradeState() method, however it is missing an upgrader for version "
      ++ toString version
      ++ " that Hemmer was expecting.\n\nThis is always an issue with the provider and should be reported to the provider developer.")

def missingUpgradedState (version : Int) : Diagnostic :=
  .error "Missing Upgraded Resource State"
    ("After attempting a resource state upgrade to version " ++ toString version
      ++ ", the provider did not return any state data. Preventing the unexpected loss of resource state data. This is always an issue with the provider and should be reported to the provider developer.")

/-- Take a stored state that has the current version as it is, if the schema allows it. -/
def passThrough (schema : PlainSchema) (stored : Json) : Rpc σ δ Value :=
  match schema.checkShape (.ofJson stored) with
  | .ok _ => return .ofJson stored
  | .error fault => do
    Rpc.report [unreadableState fault]
    return .null

/-- The stored state under the schema of its version, if that is known. -/
def typedState (upgrader : Resource.StateUpgrader σ) (stored : Json) :
    Except Fault (Option Described) :=
  match upgrader.priorSchema with
  | none => .ok none
  | some priorSchema => do
    priorSchema.checkShape (.ofJson stored)
    return some ⟨.ofJson stored, priorSchema⟩

/-- What an upgrader made of a stored state. -/
def upgradedValue (schema : PlainSchema) (answer : Resource.Upgraded) : Rpc σ δ Value :=
  match answer.document with
  | some document =>
    match schema.checkShape (.ofJson document) with
    | .ok _ => return .ofJson document
    | .error fault => do
      Rpc.report [fault.asProviderError "Unable to Upgrade Resource State"]
      return .null
  | none => do
    if answer.state.isNull then Rpc.report [missingUpgradedState schema.version]
    return answer.state.raw

/-- Run an upgrader on a stored state. -/
def runUpgrader (schema : PlainSchema) (upgrader : Resource.StateUpgrader σ) (stored : Json) :
    Rpc σ δ Value :=
  match typedState upgrader stored with
  | .error fault => do
    Rpc.report [unreadableState fault]
    return .null
  | .ok state => do
    let request : Resource.UpgradeRequest := ⟨stored, state, schema⟩
    let answer ← Rpc.call (.upgrade request) (upgrader.upgrade request) (·.diagnostics)
    if ← Rpc.failed then return .null
    upgradedValue schema answer

/-- Bring stored state up to the current version of its schema. -/
def upgradeResource (r : UpgradeRequest) : Rpc σ δ Value := do
  let some stored := r.stored | return .null
  let some (entry, active) ← Rpc.resolve resourceSlot r.typeName | return .null
  let schema := active.plain
  if r.version = schema.version then passThrough schema stored
  else
    let actions ←
      Rpc.instantiate resourceSlot r.typeName entry.capabilities.configure entry.factory
    if ← Rpc.failed then return .null
    let some list := (actions.within entry.capabilities).upgraders
      | Rpc.report [noUpgraders r.version]
        return .null
    let upgraders ← Rpc.act list
    let some upgrader := upgraders.lookup r.version
      | Rpc.report [missingUpgrader r.version]
        return .null
    runUpgrader schema upgrader stored

end ProviderKit.Server
