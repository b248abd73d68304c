import ProviderKit.Capability
import ProviderKit.Plan.Modifier
import ProviderKit.Reconcile.Equality

-- What all types that a provider declares have in common: a name, a schema with behaviour
-- attached to its attributes, and actions that may be given data of the configured provider
-- first.

namespace ProviderKit

/-- What a provider attaches to an attribute of its schemas. -/
structure Behaviour (σ : Type) where
  /-- Run in this order when a change is planned. -/
  planModifiers : List (PlanModifier σ)
  /-- Keeps the prior value where the new one means the same. -/
  semanticEquality : Option (SemanticEquality σ)

/-- A schema as a provider declares it, with what is attached to its attributes. -/
abbrev ActiveSchema (σ : Type) := Schema (Behaviour σ)

/-- A schema, with what was reported while it was put together. -/
structure Declaration (σ : Type) where
  schema : ActiveSchema σ
  diagnostics : Diagnostics

/-- An instance of a declared type. Provider code acts on a world `σ`, hands data of type
`δ` to its instances, and offers the actions `α`. -/
structure DeclaredType (σ δ α : Type) where
  /-- The full name of the type, given the name of the provider. -/
  name : String → StateM σ String
  declare : StateM σ (Declaration σ)
  /-- Takes the provider's data and gives the actions to be used from then on. -/
  configure : Option (Option δ → StateM σ (α × Diagnostics))
  /-- The actions of an instance that was given no data. -/
  actions : α

/-- Makes a fresh instance each time it runs. -/
abbrev Factory (σ ι : Type) := StateM σ ι

/-- Checks a configuration beyond what its schema says. -/
abbrev ConfigCheck (σ : Type) := Described → StateM σ Diagnostics

/-- An optional action, if its kind was found when the type was registered. -/
def onlyIf {α : Type} (registered : Bool) (action : Option α) : Option α :=
  if registered then action else none

end ProviderKit
