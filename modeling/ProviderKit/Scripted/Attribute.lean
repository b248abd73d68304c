import ProviderKit.Provider.Declaration
import ProviderKit.Scripted.Journal

-- Plan modifiers and predicates that do what a script says.

namespace ProviderKit.Scripted

/-! ## Private data -/

/-- Read a key and show what is stored there. -/
def showPrivate (d : ProviderData) (key : String) : Diagnostics :=
  let (value, reported) := d.get key
  reported ++ [.warning "private_get" ((Bytes.toText? value).getD "")]

/-! ## Plan modifiers -/

/-- What a scripted modifier can do. -/
inductive ModifierAction where
  | setValue (v : Value)
  | useConfig
  | useState
  | requireReplace
  | report (d : Diagnostic)
  | storePrivate (key : String) (value : Bytes)
  | showPrivate (key : String)

/-- Do one thing. -/
def ModifierAction.act (request : ModifierRequest) (answer : ModifierResponse) :
    ModifierAction → ModifierResponse
  | .setValue v => { answer with planValue := v }
  | .useConfig => { answer with planValue := request.configValue }
  | .useState => { answer with planValue := request.stateValue }
  | .requireReplace => { answer with requiresReplace := true }
  | .report d => { answer with diagnostics := answer.diagnostics ++ [d] }
  | .storePrivate key value =>
    let (d, reported) := answer.privateData.set key value
    { answer with privateData := d, diagnostics := answer.diagnostics ++ reported }
  | .showPrivate key =>
    { answer with
      diagnostics := answer.diagnostics ++ Scripted.showPrivate answer.privateData key }

/-- A modifier that follows a script. -/
def scriptedModifier (script : List ModifierAction) : PlanModifier Journal :=
  .custom "scripted" fun request => do
    log ("modifier " ++ request.path.display)
      [Field.value "config_value" request.configValue, Field.value "plan_value" request.planValue
      , Field.value "state_value" request.stateValue, Field.described "config" request.config
      , Field.described "plan" request.plan, Field.described "state" request.state
      , Field.described "provider_meta" request.providerMeta, Field.privateData request.privateData]
    return script.foldl (ModifierAction.act request) request.unchanged

/-- Agrees to a replacement or not, whatever changes. -/
def fixedReplacement (replace : Bool) (diagnostics : Diagnostics) : PlanModifier Journal :=
  .requiresReplaceIf "scripted" fun request => do
    log ("replace_if " ++ request.path.display) []
    return (replace, diagnostics)

/-! ## Predicates -/

/-- Gives the same answer for any two values. -/
def fixedEquality (equal : Bool) (diagnostics : Diagnostics) : SemanticEquality Journal :=
  fun prior proposed => do
    log "semantic_equality" [Field.value "prior" prior, Field.value "proposed" proposed]
    return (equal, diagnostics)

end ProviderKit.Scripted
