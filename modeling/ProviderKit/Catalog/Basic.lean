import ProviderKit.Provider.Basic
import ProviderKit.Text.Quoted

-- Catalogs: what a provider declares of one kind, by name. Of several declarations with
-- one name the first counts; a catalog reports every declaration that it leaves out, and
-- reports them again with every look-up.

namespace ProviderKit

/-- A kind of declarations: its instances `ι`, what is noted of an instance when it is
registered (`κ`), and its full description (`η`). -/
structure Kind (σ ι κ η : Type) where
  /-- How messages name one of the kind. -/
  noun : String
  /-- How summaries name one of the kind. -/
  label : String
  /-- The declared name of an instance, given the name of the provider. -/
  name : String → ι → StateM σ String
  capabilities : ι → κ
  describe : ι → StateM σ (η × Diagnostics)

/-- A registered declaration. -/
structure Entry (σ ι κ : Type) where
  factory : Factory σ ι
  capabilities : κ

/-- What was found when a provider's declarations were looked through. -/
structure Declared (σ ι κ : Type) where
  name : String
  entry : Entry σ ι κ

structure Catalog (σ ι κ : Type) where
  entries : Keyed (Entry σ ι κ)
  diagnostics : Diagnostics

namespace Kind

variable {σ ι κ η : Type}

def providerIssue : String :=
  "This is always an issue with the provider and should be reported to the provider developers."

def nameMissing (k : Kind σ ι κ η) (position : Nat) : Diagnostic :=
  .error (k.label ++ " Name Missing")
    ("The " ++ k.noun ++ " declared at position " ++ toString position
      ++ " returned an empty name from its metadata method. " ++ providerIssue)

def duplicate (k : Kind σ ι κ η) (name : String) : Diagnostic :=
  .error ("Duplicate " ++ k.label ++ " Defined")
    ("The " ++ k.noun ++ " name " ++ Text.quoted name ++ " was returned for multiple " ++ k.noun
      ++ " declarations. Names must be unique. " ++ providerIssue)

def notFound (k : Kind σ ι κ η) (name : String) : Diagnostic :=
  .error (k.label ++ " Not Found")
    ("No " ++ k.label.toLower ++ " named " ++ Text.quoted name ++ " was found in the provider.")

/-- Make an instance and note its name and what it can do. -/
def inspect (k : Kind σ ι κ η) (providerName : String) (factory : Factory σ ι) :
    StateM σ (Declared σ ι κ) := do
  let fresh ← factory
  let name ← k.name providerName fresh
  return ⟨name, ⟨factory, k.capabilities fresh⟩⟩

/-- Inspect all declarations, in their order. -/
def inspectAll (k : Kind σ ι κ η) (providerName : String) :
    List (Factory σ ι) → StateM σ (List (Declared σ ι κ))
  | [] => pure []
  | factory :: rest => do
    let d ← k.inspect providerName factory
    return d :: (← k.inspectAll providerName rest)

/-- Describe a fresh instance. -/
def describeFresh (k : Kind σ ι κ η) (factory : Factory σ ι) : StateM σ (η × Diagnostics) := do
  k.describe (← factory)

end Kind

namespace Catalog

variable {σ ι κ η : Type}

def empty : Catalog σ ι κ := ⟨[], []⟩

/-- Take in the declaration at a position, or report why not. -/
def add (k : Kind σ ι κ η) (c : Catalog σ ι κ) (position : Nat) (d : Declared σ ι κ) :
    Catalog σ ι κ :=
  if d.name = "" then { c with diagnostics := c.diagnostics ++ [k.nameMissing position] }
  else if (Keyed.get? c.entries d.name).isSome then
    { c with diagnostics := c.diagnostics ++ [k.duplicate d.name] }
  else { c with entries := Keyed.insert c.entries d.name d.entry }

/-- Take in declarations from a position on. -/
def addAll (k : Kind σ ι κ η) (c : Catalog σ ι κ) (position : Nat) :
    List (Declared σ ι κ) → Catalog σ ι κ
  | [] => c
  | d :: rest => addAll k (c.add k position d) (position + 1) rest

/-- The catalog of all declarations. -/
def ofDeclared (k : Kind σ ι κ η) (ds : List (Declared σ ι κ)) : Catalog σ ι κ :=
  addAll k .empty 0 ds

/-- Look a name up. What is wrong with the catalog is reported with every answer. -/
def lookup (k : Kind σ ι κ η) (c : Catalog σ ι κ) (name : String) :
    Option (Entry σ ι κ) × Diagnostics :=
  match Keyed.get? c.entries name with
  | some entry => (some entry, c.diagnostics)
  | none => (none, c.diagnostics ++ [k.notFound name])

def names (c : Catalog σ ι κ) : List String := Keyed.keys c.entries

end Catalog

end ProviderKit
