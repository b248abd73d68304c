import ProviderKit.Server.Serve

-- A tester drives a server the way its usual callers do: it plans, applies and reads back,
-- and stops at the first answer with an error.

namespace ProviderKit

/-- A server under test. -/
structure Tester (σ δ : Type) where
  server : Server σ δ
  /-- What the tester says of itself in its requests. -/
  client : ClientCapabilities

/-- Why a trial failed. -/
inductive TrialFailure where
  | diagnostics (ds : Diagnostics)
  | function (error : FuncError)
  | stateAfterDelete (state : Value)

namespace TrialFailure

def severityName : Severity → String
  | .error => "Error"
  | .warning => "Warning"

/-- One line of a report. -/
def line (d : Diagnostic) : String :=
  "  [" ++ severityName d.severity ++ "] " ++ d.summary
    ++ (match d.detail with | some detail => ": " ++ detail | none => "")
    ++ (match d.path with | some path => " (at " ++ path.display ++ ")" | none => "")
    ++ "\n"

def message : TrialFailure → String
  | .diagnostics ds =>
    "Operation failed with " ++ toString ds.length ++ " diagnostic(s):\n"
      ++ String.join (ds.map line)
  | .function error => "Function error: " ++ error.text
  | .stateAfterDelete state => "State remained after delete: " ++ state.display

end TrialFailure

namespace Tester

open Server

/-- A step of a trial. -/
abbrev Trial (σ δ : Type) : Type → Type := StateT (Tester σ δ) (StateM σ)

/-- A step that may end the trial. -/
abbrev Attempt (σ δ : Type) : Type → Type := ExceptT TrialFailure (Trial σ δ)

/-- The version that testers report as their own. -/
def callerVersion : String := "0.1.0"

variable {σ δ α : Type}

/-- Put a request to the server. -/
def ask (rpc : Rpc σ δ α) : Trial σ δ (Answer δ α) := fun t => do
  let (answer, server) ← rpc.run t.server
  return (answer, { t with server := server })

/-- The result of a step, whose answer must have no errors. -/
def checked (step : Trial σ δ (Answer δ α)) : Attempt σ δ α := do
  let answer ← step
  if answer.diagnostics.hasError then throw (.diagnostics answer.diagnostics)
  else return answer.result

/-! ## The provider -/

/-- The names of the resource types. -/
def resourceTypes : Trial σ δ (List String) := do
  return (← ask getMetadata).result.resources

def validateProvider (config : Value) : Attempt σ δ Unit := do
  checked (ask (Server.validateProvider (some config)))

def configure (config : Value) : Attempt σ δ Unit := do
  let client := (← get).client
  checked (ask (configureProvider ⟨some config, callerVersion, client⟩))

/-! ## Resources -/

def validateResource (typeName : String) (config : Value) : Attempt σ δ Unit := do
  checked (ask (Server.validateResource ⟨typeName, some config⟩))

/-- Plan a change; no private state is passed on. -/
def plan (typeName : String) (prior proposed config : Value) :
    Trial σ δ (Answer δ PlanResult) := do
  let client := (← get).client
  ask (planResource
    { typeName, priorState := some prior, proposedState := some proposed, config := some config
      privateBytes := [], providerMeta := none, client })

/-- What a configuration proposes: at the top level, what it leaves null keeps its prior
value. -/
def propose (prior config : Value) : Value :=
  match prior, config with
  | .map priors, .map entries =>
    .map (entries.map fun (name, v) =>
      match Keyed.get? priors name with
      | some p => (name, if v.isNull then p else v)
      | none => (name, v))
  | _, config => config

def planCreate (typeName : String) (config : Value) : Trial σ δ (Answer δ PlanResult) :=
  plan typeName .null config config

def planUpdate (typeName : String) (prior config : Value) : Trial σ δ (Answer δ PlanResult) :=
  plan typeName prior (propose prior config) config

def planDelete (typeName : String) (prior : Value) : Trial σ δ (Answer δ PlanResult) :=
  plan typeName prior .null .null

/-- Apply a plan. -/
def apply (typeName : String) (prior : Value) (planned : PlanResult) (config : Value) :
    Trial σ δ (Answer δ ApplyResult) :=
  ask (applyResource
    { typeName, priorState := some prior, plannedState := some planned.state
      config := some config, privateBytes := planned.privateBytes, providerMeta := none })

def read (typeName : String) (state : Value) (privateBytes : Bytes) :
    Trial σ δ (Answer δ ReadResult) := do
  let client := (← get).client
  ask (readResource
    { typeName, currentState := some state, privateBytes, providerMeta := none, client })

def importState (typeName id : String) : Trial σ δ (Answer δ ImportResult) := do
  let client := (← get).client
  ask (importResource ⟨typeName, id, client⟩)

/-! ## Data sources and functions -/

def readDataSource (typeName : String) (config : Value) : Attempt σ δ Value := do
  let client := (← get).client
  let found ← checked (ask (Server.readDataSource ⟨typeName, some config, none, client⟩))
  return found.state

def callFunction (name : String) (arguments : List Value) : Attempt σ δ Value := do
  let call : Trial σ δ (Answer δ CallResult) := ask (Server.callFunction ⟨name, arguments⟩)
  let called ← call
  match called.result.error with
  | some error => throw (.function error)
  | none => return called.result.result

/-! ## Life cycles -/

/-- Apply a plan and read the outcome back: the state and its private bytes. -/
def applyAndRead (typeName : String) (prior : Value) (planned : PlanResult) (config : Value) :
    Attempt σ δ (Value × Bytes) := do
  let changed ← checked (apply typeName prior planned config)
  let found ← checked (read typeName changed.state changed.privateBytes)
  return (found.state, found.privateBytes)

def lifecycleCreate (typeName : String) (config : Value) : Attempt σ δ (Value × Bytes) := do
  let planned ← checked (planCreate typeName config)
  applyAndRead typeName .null planned config

def lifecycleUpdate (typeName : String) (prior config : Value) : Attempt σ δ (Value × Bytes) := do
  let planned ← checked (planUpdate typeName prior config)
  applyAndRead typeName prior planned config

def lifecycleDelete (typeName : String) (state : Value) : Attempt σ δ Unit := do
  let planned ← checked (planDelete typeName state)
  let deleted ← checked (apply typeName state planned .null)
  if deleted.state.isNull then return
  throw (.stateAfterDelete deleted.state)

/-- Create, update and delete a resource; the state after the update is given. -/
def lifecycle (typeName : String) (config updated : Value) : Attempt σ δ Value := do
  let (created, _) ← lifecycleCreate typeName config
  let (state, _) ← lifecycleUpdate typeName created updated
  lifecycleDelete typeName state
  return state

end Tester

end ProviderKit
