import ProviderKit.Server.Instance

-- State documents: listing, reading, writing and locking them in a state store.

namespace ProviderKit.Server

variable {σ δ : Type}

/-- The actions of a state store; none if something is wrong already. -/
def storeActions (typeName : String) : Rpc σ δ (Option (StateStore.Actions σ δ)) := do
  let some (actions, _) ← freshStore typeName | return none
  if ← Rpc.failed then return none
  return some actions

/-! ## Documents -/

/-- List the stored states. -/
def getStates (typeName : String) : Rpc σ δ (List String) := do
  let some actions ← storeActions typeName | return []
  let (ids, _) ← Rpc.call .getStates actions.getStates fun answer => answer.2
  return ids

/-- Read the document of a state. -/
def readState (typeName stateId : String) : Rpc σ δ Bytes := do
  let some actions ← storeActions typeName | return []
  let (document, _) ← Rpc.call (.readState stateId) (actions.read stateId) fun answer => answer.2
  return document

/-- Replace the document of a state. -/
def writeState (typeName stateId : String) (document : Bytes) : Rpc σ δ Unit := do
  let some actions ← storeActions typeName | return
  let _ ← Rpc.call (.writeState stateId document) (actions.write stateId document) id

/-- Delete the document of a state. -/
def deleteState (typeName stateId : String) : Rpc σ δ Unit := do
  let some actions ← storeActions typeName | return
  let _ ← Rpc.call (.deleteState stateId) (actions.deleteState stateId) id

/-! ## Locks -/

/-- Lock a state for an operation. -/
def lockState (typeName stateId operation : String) : Rpc σ δ String := do
  let some actions ← storeActions typeName | return ""
  let (lockId, _) ←
    Rpc.call (.lockState stateId operation) (actions.lock stateId operation) fun answer => answer.2
  return lockId

/-- Release a lock. -/
def unlockState (typeName stateId lockId : String) : Rpc σ δ Unit := do
  let some actions ← storeActions typeName | return
  let _ ← Rpc.call (.unlockState stateId lockId) (actions.unlock stateId lockId) id

end ProviderKit.Server
