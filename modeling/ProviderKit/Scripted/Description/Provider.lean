import ProviderKit.Scripted.Provider
import ProviderKit.Scripted.Description.Schema
import ProviderKit.Reconcile.DecimalText

-- Documents that describe scripted providers. They may leave out anything: texts and lists
-- are then empty, schemas describe nothing, and optional callbacks do not exist.

namespace ProviderKit

/-! ## Functions -/

def FuncError.ofDescription (j : Json) : FuncError :=
  ⟨j.textField "text", j.indexField? "argument"⟩

def Parameter.ofDescription (j : Json) : Parameter where
  name := j.textField "name"
  type := (AttributeType.ofJson? (j.field "type")).getD .dynamic
  allowNull := j.flagField "allow_null"
  allowUnknown := j.flagField "allow_unknown"
  description := j.textField? "description"

def FunctionDefinition.ofDescription (j : Json) : FunctionDefinition where
  parameters := (j.itemsField "parameters").map Parameter.ofDescription
  variadic := (j.objectField? "variadic_parameter").map Parameter.ofDescription
  result := (AttributeType.ofJson? (j.field "return")).getD .dynamic
  summary := j.textField? "summary"
  description := j.textField? "description"
  deprecation := j.textField? "deprecation_message"

namespace Scripted

/-! ## Scripts -/

def Source.ofName : String → Source
  | "config" => .config
  | "plan" => .plan
  | _ => .state

def Action.ofDescription? (j : Json) : Option Action :=
  match j.textField "do" with
  | "diag" => some (.report (.ofJson j))
  | "set_raw" => some (.replaceState (j.valueField "value"))
  | "set" => some (.write (j.pathField "path") (j.valueField "value"))
  | "copy" => some (.copy (.ofName (j.textField "from")))
  | "copy_path" =>
    some (.copyPath (.ofName (j.textField "from")) (j.pathField "from_path") (j.pathField "path"))
  | "private_set" => some (.storePrivate (j.textField "key") (j.bytesField "value"))
  | "private_get" => some (.showPrivate (j.textField "key"))
  | "requires_replace" => some (.requireReplace (j.pathField "path"))
  | "clear_replace" => some .clearReplace
  | "defer" => some (.defer ((Deferral.ofName? (j.textField "reason")).getD .standard))
  | "renew_at" => some (.renewAt (j.intField "secs"))
  | "dynamic" => some (.giveDocument (j.field "value"))
  | "dynamic_raw" => some .giveStored
  | "passthrough" => some (.passId (j.pathField "path"))
  | _ => none

def Script.ofDescription (j : Json) : Script := j.items.filterMap Action.ofDescription?

def scriptField (j : Json) (key : String) : Script := .ofDescription (j.field key)

/-- The script of an optional callback, which exists if there is an entry for it. -/
def scriptField? (j : Json) (key : String) : Option Script := (j.get? key).map Script.ofDescription

/-! ## Types -/

def schemaField (j : Json) (key : String) : ActiveSchema Journal :=
  (activeSchemaOfJson? (j.field key)).getD .empty

def schemaField? (j : Json) (key : String) : Option PlainSchema :=
  (j.get? key).map fun _ => (schemaField j key).plain

def declarationOf (j : Json) : Declaration Journal :=
  ⟨schemaField j "schema", j.diagnosticsField "schema_diagnostics"⟩

def TypeName.ofDescription (j : Json) : TypeName :=
  match j.textField? "suffix" with
  | some text => .suffix text
  | none => .full (j.textField "name")

def TypeScript.ofDescription (j : Json) : TypeScript where
  name := .ofDescription j
  declaration := declarationOf j
  configure := scriptField? j "configure"

def UpgraderScript.ofDescription? (key : String) (j : Json) : Option UpgraderScript := do
  let version ← DecimalText.readInteger? key.toList
  return ⟨version, schemaField? j "prior_schema", scriptField j "script"⟩

/-- The upgraders of a resource; of two for one version the later counts. -/
def upgradersOf (entries : Keyed Json) : List UpgraderScript :=
  (entries.filterMap fun e => UpgraderScript.ofDescription? e.1 e.2).reverse

def ResourceScript.ofDescription (j : Json) : ResourceScript :=
  { TypeScript.ofDescription j with
    create := scriptField j "create"
    read := scriptField j "read"
    update := scriptField j "update"
    delete := scriptField j "delete"
    modifyPlan := scriptField? j "modify_plan"
    validate := scriptField? j "validate"
    importState := scriptField? j "import"
    upgraders := (j.get? "upgrade").map fun u => upgradersOf (u.asEntries?.getD []) }

def DataSourceScript.ofDescription (j : Json) : DataSourceScript :=
  { TypeScript.ofDescription j with
    read := scriptField j "read"
    validate := scriptField? j "validate" }

def EphemeralScript.ofDescription (j : Json) : EphemeralScript :=
  { TypeScript.ofDescription j with
    openScript := scriptField j "open"
    renew := scriptField? j "renew"
    close := scriptField? j "close"
    validate := scriptField? j "validate" }

def StateStoreScript.ofDescription (j : Json) : StateStoreScript :=
  { TypeScript.ofDescription j with
    data := j.textField? "data"
    stateIds := (j.itemsField "state_ids").filterMap Json.asText?
    document := j.bytesField "bytes"
    lockId := j.textField "lock_id"
    setUp := scriptField j "initialize"
    getStates := scriptField j "get_states"
    read := scriptField j "read"
    write := scriptField j "write"
    lock := scriptField j "lock"
    unlock := scriptField j "unlock"
    deleteState := scriptField j "delete_state"
    validate := scriptField? j "validate" }

def FunctionScript.ofDescription (j : Json) : FunctionScript where
  name := j.textField "name"
  definition := (j.get? "definition").elim .empty FunctionDefinition.ofDescription
  diagnostics := j.diagnosticsField "definition_diagnostics"
  result := (j.field "run").valueField? "result"
  argument := (j.field "run").indexField? "argument"
  error := ((j.field "run").objectField? "error").map FuncError.ofDescription

/-! ## Providers -/

def sharedOf (j : Json) : SharedData String where
  resource := j.textField? "resource"
  dataSource := j.textField? "data_source"
  ephemeralResource := j.textField? "ephemeral_resource"
  stateStore := j.textField? "state_store"
  deferred := none

def ProviderScript.ofDescription (j : Json) : ProviderScript where
  metadata := ⟨j.textField "type_name", j.textField "version"⟩
  declaration := declarationOf j
  metaSchema := schemaField? j "meta_schema"
  shared := sharedOf (j.field "data")
  configure := scriptField j "configure"
  validate := scriptField? j "validate"
  resources := (j.itemsField "resources").map ResourceScript.ofDescription
  dataSources := (j.itemsField "data_sources").map DataSourceScript.ofDescription
  ephemeralResources := (j.itemsField "ephemeral_resources").map EphemeralScript.ofDescription
  functions := (j.itemsField "functions").map FunctionScript.ofDescription
  stateStores := (j.itemsField "state_stores").map StateStoreScript.ofDescription

end Scripted

end ProviderKit
