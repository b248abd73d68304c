import ProviderKit.Described
import ProviderKit.PrivateState.ProviderData

-- Plan modifiers: what a provider attaches to an attribute to have a say in its planned
-- value, to ask for replacement, to report diagnostics or to keep private data.

namespace ProviderKit

/-- What a modifier is told about the attribute and the whole change. -/
structure ModifierRequest where
  path : Path
  configValue : Value
  /-- The planned value as earlier modifiers left it. -/
  planValue : Value
  stateValue : Value
  config : Described
  /-- The whole plan as it was before any modifier ran. -/
  plan : Described
  state : Described
  providerMeta : Described
  /-- Private data as earlier modifiers left it. -/
  privateData : ProviderData

structure ModifierResponse where
  planValue : Value
  requiresReplace : Bool
  diagnostics : Diagnostics
  privateData : ProviderData

/-- The response that changes nothing. -/
def ModifierRequest.unchanged (r : ModifierRequest) : ModifierResponse :=
  ⟨r.planValue, false, [], r.privateData⟩

/-- A plan modifier. Provider code acts on a world `σ`. -/
inductive PlanModifier (σ : Type) where
  /-- A change of the attribute replaces the resource. -/
  | requiresReplace
  /-- A change of the attribute replaces the resource if the provider agrees. -/
  | requiresReplaceIf (description : String)
      (check : ModifierRequest → StateM σ (Bool × Diagnostics))
  /-- An unknown planned value keeps its prior value. -/
  | useStateForUnknown
  | custom (description : String) (modify : ModifierRequest → StateM σ ModifierResponse)

/-- The resource exists and stays, the attribute is not left to the provider, and its
value changes. -/
def ModifierRequest.replaces (r : ModifierRequest) : Bool :=
  if r.state.isNull || r.plan.isNull then false
  else
    let leftToProvider :=
      match r.config.schema.attributeAt r.path with
      | .ok a => r.configValue.isNull && a.flags.computed
      | .error _ => false
    if leftToProvider then false else !r.planValue.same r.stateValue

namespace PlanModifier

variable {σ : Type}

def description : PlanModifier σ → String
  | .requiresReplace =>
    "If the value of this attribute changes, the resource will be destroyed and recreated."
  | .requiresReplaceIf text _ => text
  | .useStateForUnknown => "Once set, the value of this attribute in state will not change."
  | .custom text _ => text

/-- Run a modifier. -/
def modify (m : PlanModifier σ) (r : ModifierRequest) : StateM σ ModifierResponse :=
  match m with
  | .requiresReplace => pure { r.unchanged with requiresReplace := r.replaces }
  | .requiresReplaceIf _ check =>
    if r.replaces then do
      let (replace, diagnostics) ← check r
      return { r.unchanged with requiresReplace := replace, diagnostics := diagnostics }
    else pure r.unchanged
  | .useStateForUnknown =>
    if r.stateValue.isNull || !r.planValue.isUnknown || r.configValue.isUnknown then
      pure r.unchanged
    else pure { r.unchanged with planValue := r.stateValue }
  | .custom _ f => f r

end PlanModifier

end ProviderKit
