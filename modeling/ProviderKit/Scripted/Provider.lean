import ProviderKit.Scripted.Action

-- Providers that do what a description says, and write every call down. They stand in for
-- real providers wherever a server is to be tried out.

namespace ProviderKit.Scripted

/-! ## Instances -/

/-- How a type gets its name: by a suffix to the name of the provider, or on its own. -/
inductive TypeName where
  | suffix (text : String)
  | full (text : String)

def TypeName.under (providerName : String) : TypeName → String
  | .suffix text => providerName ++ text
  | .full text => text

/-- An instance: where it is declared, and the data it was given. -/
structure Instance where
  tag : String
  data : Option String

/-- Write down a call into an instance. -/
def Instance.log (x : Instance) (call : String) (fields : List (String × Json)) :
    StateM Journal Unit :=
  Scripted.log (x.tag ++ "." ++ call)
    (fields ++ (match x.data with
      | some text => [Field.text "configured" text]
      | none => []))

/-- A check that follows a script. -/
def Instance.check (x : Instance) (script : Script) : ConfigCheck Journal := fun config => do
  x.log "validate_config" [Field.described "config" config]
  return reportsOf script

/-- What all scripted types have in common. -/
structure TypeScript where
  name : TypeName
  declaration : Declaration Journal
  configure : Option Script

/-- Makes instances of a scripted type that offer some actions. -/
def TypeScript.factory {α : Type} (t : TypeScript) (tag : String) (actions : Instance → α) :
    Factory Journal (DeclaredType Journal String α) := do
  log (tag ++ ".new") []
  return {
    name := fun providerName => do
      log (tag ++ ".metadata") [Field.text "provider_type_name" providerName]
      return t.name.under providerName
    declare := do
      log (tag ++ ".schema") []
      return t.declaration
    configure := t.configure.map fun script data => do
      log (tag ++ ".configure") [Field.textOrNull "provider_data" data]
      return (actions ⟨tag, data⟩, reportsOf script)
    actions := actions ⟨tag, none⟩ }

/-! ## Resources -/

structure UpgraderScript where
  version : Int
  priorSchema : Option PlainSchema
  script : Script

structure ResourceScript extends TypeScript where
  create : Script
  read : Script
  update : Script
  delete : Script
  modifyPlan : Option Script
  validate : Option Script
  importState : Option Script
  upgraders : Option (List UpgraderScript)

/-- Perform a script on the outcome of a change. -/
def change (start : Resource.Changed) (inputs : Inputs) (script : Script) : Resource.Changed :=
  let d := Draft.perform
    { state := some start.state, privateData := some start.privateData
      diagnostics := start.diagnostics } inputs script
  ⟨d.state.getD start.state, d.privateData.getD start.privateData, d.diagnostics⟩

namespace ResourceScript

def performRead (r : Resource.ReadRequest) (script : Script) : Resource.Refreshed :=
  let d := Draft.perform
    { state := some r.state, privateData := some r.privateData, deferred := some none }
    { state := some r.state } script
  ⟨d.state.getD r.state, d.privateData.getD r.privateData, d.diagnostics, d.deferred.join⟩

def performModifyPlan (r : Resource.ModifyPlanRequest) (script : Script) :
    Resource.PlanModified :=
  let d := Draft.perform
    { state := some r.plan, privateData := some r.privateData
      requiresReplace := some r.requiresReplace, deferred := some none }
    { config := some r.config, plan := some r.plan, state := some r.state } script
  ⟨d.state.getD r.plan, d.requiresReplace.getD [], d.privateData.getD r.privateData,
    d.diagnostics, d.deferred.join⟩

def performUpgrade (r : Resource.UpgradeRequest) (script : Script) : Resource.Upgraded :=
  let start := r.start
  let d := Draft.perform
    { state := some start.state, document := some none }
    { state := r.state, stored := some r.stored } script
  ⟨d.document.join, d.state.getD start.state, d.diagnostics⟩

def performImport (r : Resource.ImportRequest) (script : Script) : Resource.Imported :=
  let start := r.start
  let d := Draft.perform
    { state := some start.state, privateData := some start.privateData, deferred := some none }
    { importing := some r } script
  ⟨d.state.getD start.state, d.privateData.getD start.privateData, d.diagnostics, d.deferred.join⟩

/-- The upgrader of one version. -/
def upgrader (x : Instance) (u : UpgraderScript) : Int × Resource.StateUpgrader Journal :=
  (u.version,
    { priorSchema := u.priorSchema
      upgrade := fun r => do
        x.log ("upgrade(" ++ toString u.version ++ ")")
          [("raw_state", r.stored), Field.value "state" ((r.state.map (·.raw)).getD .null)]
        return performUpgrade r u.script })

def actions (s : ResourceScript) (x : Instance) : Resource.Actions Journal where
  create r := do
    x.log "create"
      [Field.described "config" r.config, Field.described "plan" r.plan
      , Field.described "provider_meta" r.providerMeta]
    return change r.start { config := some r.config, plan := some r.plan } s.create
  read r := do
    x.log "read"
      [Field.described "state" r.state, Field.privateData r.privateData
      , Field.described "provider_meta" r.providerMeta, Field.client r.client]
    return performRead r s.read
  update r := do
    x.log "update"
      [Field.described "config" r.config, Field.described "plan" r.plan
      , Field.described "state" r.state, Field.privateData r.privateData
      , Field.described "provider_meta" r.providerMeta]
    return change r.start
      { config := some r.config, plan := some r.plan, state := some r.state } s.update
  delete r := do
    x.log "delete"
      [Field.described "state" r.state, Field.privateData r.privateData
      , Field.described "provider_meta" r.providerMeta]
    return change r.start { state := some r.state } s.delete
  modifyPlan := s.modifyPlan.map fun script r => do
    x.log "modify_plan"
      [Field.described "config" r.config, Field.described "plan" r.plan
      , Field.described "state" r.state, Field.privateData r.privateData
      , Field.described "provider_meta" r.providerMeta, Field.client r.client
      , ("requires_replace", .array (r.requiresReplace.map fun p => .string p.display))]
    return performModifyPlan r script
  validateConfig := s.validate.map x.check
  upgraders := s.upgraders.map fun list => do
    x.log "upgrade_state" []
    return list.map (upgrader x)
  importState := s.importState.map fun script r => do
    x.log "import" [Field.text "id" r.id, Field.client r.client]
    return performImport r script

end ResourceScript

/-! ## Data sources -/

structure DataSourceScript extends TypeScript where
  read : Script
  validate : Option Script

namespace DataSourceScript

def performRead (r : DataSource.ReadRequest) (script : Script) : DataSource.Found :=
  let start := r.start
  let d := Draft.perform { state := some start.state, deferred := some none }
    { config := some r.config } script
  ⟨d.state.getD start.state, d.diagnostics, d.deferred.join⟩

def actions (s : DataSourceScript) (x : Instance) : DataSource.Actions Journal where
  read r := do
    x.log "read"
      [Field.described "config" r.config, Field.described "provider_meta" r.providerMeta
      , Field.client r.client]
    return performRead r s.read
  validateConfig := s.validate.map x.check

end DataSourceScript

/-! ## Ephemeral resources -/

structure EphemeralScript extends TypeScript where
  openScript : Script
  renew : Option Script
  close : Option Script
  validate : Option Script

namespace EphemeralScript

def performOpen (r : EphemeralResource.OpenRequest) (script : Script) : EphemeralResource.Opened :=
  let start := r.start
  let d := Draft.perform
    { state := some start.result, privateData := some start.privateData
      deferred := some none, renewAt := some none }
    { config := some r.config } script
  ⟨d.state.getD start.result, d.privateData.getD start.privateData, d.renewAt.join, d.diagnostics,
    d.deferred.join⟩

def performRenew (data : ProviderData) (script : Script) : EphemeralResource.Renewed :=
  let d := Draft.perform { privateData := some data, renewAt := some none } {} script
  ⟨d.renewAt.join, d.privateData.getD data, d.diagnostics⟩

def actions (s : EphemeralScript) (x : Instance) : EphemeralResource.Actions Journal where
  openResource r := do
    x.log "open" [Field.described "config" r.config, Field.client r.client]
    return performOpen r s.openScript
  renew := s.renew.map fun script data => do
    x.log "renew" [Field.privateData data]
    return performRenew data script
  close := s.close.map fun script data => do
    x.log "close" [Field.privateData data]
    return reportsOf script
  validateConfig := s.validate.map x.check

end EphemeralScript

/-! ## State stores -/

structure StateStoreScript extends TypeScript where
  data : Option String
  stateIds : List String
  document : Bytes
  lockId : String
  setUp : Script
  getStates : Script
  read : Script
  write : Script
  lock : Script
  unlock : Script
  deleteState : Script
  validate : Option Script

def StateStoreScript.actions (s : StateStoreScript) (x : Instance) :
    StateStore.Actions Journal String where
  setUp r := do
    x.log "initialize"
      [Field.described "config" r.config, Field.textOrNull "provider_data" r.data
      , Field.client r.client]
    return (s.data, reportsOf s.setUp)
  getStates := do
    x.log "get_states" []
    return (s.stateIds, reportsOf s.getStates)
  read stateId := do
    x.log "read" [Field.text "state_id" stateId]
    return (s.document, reportsOf s.read)
  write stateId document := do
    x.log "write" [Field.text "state_id" stateId, ("bytes", Json.ofBytes document)]
    return reportsOf s.write
  lock stateId operation := do
    x.log "lock" [Field.text "state_id" stateId, Field.text "operation" operation]
    return (s.lockId, reportsOf s.lock)
  unlock stateId lockId := do
    x.log "unlock" [Field.text "state_id" stateId, Field.text "lock_id" lockId]
    return reportsOf s.unlock
  deleteState stateId := do
    x.log "delete_state" [Field.text "state_id" stateId]
    return reportsOf s.deleteState
  validateConfig := s.validate.map x.check

/-! ## Functions -/

structure FunctionScript where
  name : String
  definition : FunctionDefinition
  diagnostics : Diagnostics
  result : Option Value
  /-- The result is the argument at this position; it counts before a fixed result. -/
  argument : Option Nat
  error : Option FuncError

namespace FunctionScript

def outcome (s : FunctionScript) (arguments : Arguments) : FunctionOutcome where
  result :=
    match s.argument with
    | some position => (arguments.values[position]?).getD .null
    | none => s.result.getD .null
  error := s.error

def factory (s : FunctionScript) (tag : String) : Factory Journal (ProviderFunction Journal) := do
  log (tag ++ ".new") []
  return {
    name := do
      log (tag ++ ".metadata") []
      return s.name
    define := do
      log (tag ++ ".definition") []
      return (s.definition, s.diagnostics)
    run := fun arguments => do
      log (tag ++ ".run")
        [("values", .array (arguments.values.map Value.toWire))
        , ("variadic", .array (arguments.variadic.map Value.toWire))]
      return s.outcome arguments }

end FunctionScript

/-! ## Providers -/

structure ProviderScript where
  metadata : ProviderMetadata
  declaration : Declaration Journal
  metaSchema : Option PlainSchema
  /-- What it hands to its instances once it is configured. -/
  shared : SharedData String
  configure : Script
  validate : Option Script
  resources : List ResourceScript
  dataSources : List DataSourceScript
  ephemeralResources : List EphemeralScript
  functions : List FunctionScript
  stateStores : List StateStoreScript

/-- The factories of scripts, each tagged with its position. -/
def tagged {α β : Type} (noun : String) (make : α → String → β) : Nat → List α → List β
  | _, [] => []
  | i, a :: rest => make a (noun ++ "[" ++ toString i ++ "]") :: tagged noun make (i + 1) rest

/-- The provider that follows a script. -/
def ProviderScript.provider (p : ProviderScript) : Provider Journal String where
  metadata := do
    log "provider.metadata" []
    return p.metadata
  declare := do
    log "provider.schema" []
    return p.declaration
  metaSchema := p.metaSchema
  configure r := do
    log "provider.configure"
      [Field.described "config" r.config, Field.text "hemmer_version" r.callerVersion
      , Field.client r.client]
    let d := Draft.perform { deferred := some none } {} p.configure
    return ({ p.shared with deferred := d.deferred.join }, d.diagnostics)
  validateConfig := p.validate.map fun script config => do
    log "provider.validate_config" [Field.described "config" config]
    return reportsOf script
  resources := do
    log "provider.resources" []
    return tagged "resource" (fun s tag => s.factory tag s.actions) 0 p.resources
  dataSources := do
    log "provider.data_sources" []
    return tagged "data_source" (fun s tag => s.factory tag s.actions) 0 p.dataSources
  ephemeralResources := do
    log "provider.ephemeral_resources" []
    return tagged "ephemeral_resource" (fun s tag => s.factory tag s.actions) 0 p.ephemeralResources
  functions := do
    log "provider.functions" []
    return tagged "function" (fun s tag => s.factory tag) 0 p.functions
  stateStores := do
    log "provider.state_stores" []
    return tagged "state_store" (fun s tag => s.factory tag s.actions) 0 p.stateStores

end ProviderKit.Scripted
