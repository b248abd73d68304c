import ProviderKit.Server.Describe
import ProviderKit.Server.Configure
import ProviderKit.Server.Check
import ProviderKit.Server.Read
import ProviderKit.Server.Plan
import ProviderKit.Server.Apply
import ProviderKit.Server.Upgrade
import ProviderKit.Server.Import
import ProviderKit.Server.Open
import ProviderKit.Server.Store

-- Calling functions, and serving any request, and any number of them one after the other.

namespace ProviderKit.Server

variable {σ δ : Type}

/-- Call a function. Callers get one error at most, and no diagnostics. -/
def callFunction (r : CallRequest) : Rpc σ δ CallResult := do
  let some (entry, definition) ← Rpc.resolve functionSlot r.name
    | return ⟨.null, FuncError.ofDiagnostics (← get).diagnostics⟩
  match definition.arguments r.arguments with
  | .error e => return ⟨.null, some e⟩
  | .ok arguments =>
    let function ← Rpc.act entry.factory
    let outcome ← Rpc.call (.run arguments) (function.run arguments) fun _ => []
    match outcome.error with
    | some e => return ⟨.null, some e⟩
    | none => return ⟨outcome.result, none⟩

/-- The result of a request, next to its diagnostics. -/
inductive Result where
  /-- The diagnostics say it all. -/
  | done
  | metadata (r : MetadataResult)
  | schemas (r : SchemasResult)
  | read (r : ReadResult)
  | plan (r : PlanResult)
  | apply (r : ApplyResult)
  | upgrade (state : Value)
  | importResult (r : ImportResult)
  | data (r : DataResult)
  | opened (r : OpenResult)
  | renewed (r : RenewResult)
  | functions (definitions : Keyed FunctionDefinition)
  | called (r : CallResult)
  | states (stateIds : List String)
  | document (bytes : Bytes)
  | locked (lockId : String)

/-- Serve a request. -/
def serving : Request → Rpc σ δ Result
  | .getMetadata => Result.metadata <$> getMetadata
  | .getProviderSchema => Result.schemas <$> getProviderSchema
  | .validateProvider config => (fun _ => .done) <$> validateProvider config
  | .configureProvider r => (fun _ => .done) <$> configureProvider r
  | .validateResource r => (fun _ => .done) <$> validateResource r
  | .readResource r => Result.read <$> readResource r
  | .planResource r => Result.plan <$> planResource r
  | .applyResource r => Result.apply <$> applyResource r
  | .createResource r => Result.apply <$> createResource r
  | .updateResource r => Result.apply <$> updateResource r
  | .deleteResource r => Result.apply <$> deleteResource r
  | .upgradeResource r => Result.upgrade <$> upgradeResource r
  | .importResource r => Result.importResult <$> importResource r
  | .validateDataSource r => (fun _ => .done) <$> validateDataSource r
  | .readDataSource r => Result.data <$> readDataSource r
  | .validateEphemeral r => (fun _ => .done) <$> validateEphemeral r
  | .openEphemeral r => Result.opened <$> openEphemeral r
  | .renewEphemeral r => Result.renewed <$> renewEphemeral r
  | .closeEphemeral r => (fun _ => .done) <$> closeEphemeral r
  | .getFunctions => Result.functions <$> getFunctions
  | .callFunction r => Result.called <$> callFunction r
  | .validateStore r => (fun _ => .done) <$> validateStore r
  | .configureStore r => (fun _ => .done) <$> configureStore r
  | .getStates typeName => Result.states <$> getStates typeName
  | .readState typeName stateId => Result.document <$> readState typeName stateId
  | .writeState typeName stateId document => (fun _ => .done) <$> writeState typeName stateId document
  | .lockState typeName stateId operation => Result.locked <$> lockState typeName stateId operation
  | .unlockState typeName stateId lockId => (fun _ => .done) <$> unlockState typeName stateId lockId
  | .deleteState typeName stateId => (fun _ => .done) <$> deleteState typeName stateId

/-- The result of a request for which nothing was done. -/
def Result.nothing : Request → Result
  | .getMetadata => .metadata .none
  | .getProviderSchema => .schemas .none
  | .readResource _ => .read .none
  | .planResource _ => .plan .none
  | .applyResource _ | .createResource _ | .updateResource _ | .deleteResource _ => .apply .none
  | .upgradeResource _ => .upgrade .null
  | .importResource _ => .importResult .none
  | .readDataSource _ => .data .none
  | .openEphemeral _ => .opened .none
  | .renewEphemeral _ => .renewed .none
  | .getFunctions => .functions []
  | .callFunction _ => .called .none
  | .getStates _ => .states []
  | .readState _ _ => .document []
  | .lockState _ _ _ => .locked ""
  | .validateProvider _ | .configureProvider _ | .validateResource _ | .validateDataSource _
  | .validateEphemeral _ | .closeEphemeral _ | .validateStore _ | .configureStore _
  | .writeState _ _ _ | .unlockState _ _ _ | .deleteState _ _ => .done

/-- The answer to a request that came without contents. -/
def unserved (request : Request) : Answer δ Result := ⟨.nothing request, [], []⟩

/-- Serve a request and remember what later ones need. -/
def serve (server : Server σ δ) (request : Request) :
    StateM σ (Answer δ Result × Server σ δ) := (serving request).run server

/-- Serve requests one after the other. -/
def serveAll (server : Server σ δ) :
    List Request → StateM σ (List (Answer δ Result) × Server σ δ)
  | [] => pure ([], server)
  | request :: rest => do
    let (answer, server) ← serve server request
    let (answers, server) ← serveAll server rest
    return (answer :: answers, server)

end ProviderKit.Server
