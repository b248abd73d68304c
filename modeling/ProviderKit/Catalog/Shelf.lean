import ProviderKit.Catalog.Basic

-- Shelves: the catalog of one kind, built when it is first needed and kept from then on,
-- and the descriptions that were built so far. A description with errors is not kept, so it
-- is built and reported anew each time.

namespace ProviderKit

structure Shelf (σ ι κ η : Type) where
  catalog : Option (Catalog σ ι κ)
  descriptions : Keyed η

namespace Shelf

variable {σ ι κ η : Type}

def empty : Shelf σ ι κ η := ⟨none, []⟩

/-- Work on a shelf, in the world of the provider. -/
abbrev Work (σ ι κ η : Type) := StateT (Shelf σ ι κ η) (StateM σ)

/-- The catalog, built from the provider's declarations if there is none yet. -/
def useCatalog (k : Kind σ ι κ η) (providerName : String)
    (declarations : StateM σ (List (Factory σ ι))) : Work σ ι κ η (Catalog σ ι κ) := do
  match (← get).catalog with
  | some c => return c
  | none =>
    let factories ← declarations
    let c := Catalog.ofDeclared k (← k.inspectAll providerName factories)
    modify fun r => { r with catalog := some c }
    return c

/-- The description of an entry, built if it is not kept yet. -/
def useDescription (k : Kind σ ι κ η) (name : String) (entry : Entry σ ι κ) :
    Work σ ι κ η (Option η × Diagnostics) := do
  match Keyed.get? (← get).descriptions name with
  | some d => return (some d, [])
  | none =>
    let (d, diagnostics) ← k.describeFresh entry.factory
    if Diagnostics.hasError diagnostics then return (none, diagnostics)
    else
      modify fun r => { r with descriptions := Keyed.insert r.descriptions name d }
      return (some d, diagnostics)

/-- The entry of a name with its description. There is none when anything that is reported
is an error, be it about other declarations. -/
def resolve (k : Kind σ ι κ η) (providerName : String)
    (declarations : StateM σ (List (Factory σ ι))) (name : String) :
    Work σ ι κ η (Option (Entry σ ι κ × η) × Diagnostics) := do
  let c ← useCatalog k providerName declarations
  match c.lookup k name with
  | (none, diagnostics) => return (none, diagnostics)
  | (some entry, diagnostics) =>
    let (description, more) ← useDescription k name entry
    let diagnostics := diagnostics ++ more
    match description with
    | none => return (none, diagnostics)
    | some d =>
      return (if Diagnostics.hasError diagnostics then none else some (entry, d), diagnostics)

/-- Describe entries one after the other; those with errors are left out. -/
def describeEntries (k : Kind σ ι κ η) :
    List (String × Entry σ ι κ) → Work σ ι κ η (Keyed η × Diagnostics)
  | [] => pure ([], [])
  | (name, entry) :: rest => do
    let (description, diagnostics) ← useDescription k name entry
    let (ds, more) ← describeEntries k rest
    return ((description.map fun d => (name, d)).toList ++ ds, diagnostics ++ more)

/-- The descriptions of all entries. -/
def describeAll (k : Kind σ ι κ η) (providerName : String)
    (declarations : StateM σ (List (Factory σ ι))) : Work σ ι κ η (Keyed η × Diagnostics) := do
  let c ← useCatalog k providerName declarations
  let (ds, diagnostics) ← describeEntries k c.entries
  return (ds, c.diagnostics ++ diagnostics)

/-- The names of all entries. -/
def listNames (k : Kind σ ι κ η) (providerName : String)
    (declarations : StateM σ (List (Factory σ ι))) :
    Work σ ι κ η (List String × Diagnostics) := do
  let c ← useCatalog k providerName declarations
  return (c.names, c.diagnostics)

end Shelf

end ProviderKit
