import ProviderKit.Catalog.Shelf

-- The five kinds of things that providers declare.

namespace ProviderKit

namespace Kind

variable {σ δ α κ : Type}

/-- A kind of types, which are described by schemas. -/
def ofTypes (noun label : String) (capabilities : DeclaredType σ δ α → κ) :
    Kind σ (DeclaredType σ δ α) κ (ActiveSchema σ) where
  noun := noun
  label := label
  name providerName fresh := fresh.name providerName
  capabilities := capabilities
  describe fresh := do
    let d ← fresh.declare
    return (d.schema, d.diagnostics)

def resources : Kind σ (Resource σ δ) Resource.Capabilities (ActiveSchema σ) :=
  ofTypes "resource" "Resource Type" Resource.capabilities

def dataSources : Kind σ (DataSource σ δ) DataSource.Capabilities (ActiveSchema σ) :=
  ofTypes "data source" "Data Source Type" DataSource.capabilities

def ephemeralResources :
    Kind σ (EphemeralResource σ δ) EphemeralResource.Capabilities (ActiveSchema σ) :=
  ofTypes "ephemeral resource" "Ephemeral Resource Type" EphemeralResource.capabilities

def stateStores : Kind σ (StateStore σ δ) StateStore.Capabilities (ActiveSchema σ) :=
  ofTypes "state store" "State Store Type" StateStore.capabilities

/-- Functions are described by definitions, and all can do the same. -/
def functions : Kind σ (ProviderFunction σ) Unit FunctionDefinition where
  noun := "function"
  label := "Function"
  name _ f := f.name
  capabilities _ := ()
  describe f := f.define

end Kind

end ProviderKit
