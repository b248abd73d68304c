import ProviderKit.Proofs.Catalog.Steady
import ProviderKit.Proofs.Server.Moves

-- Where servers find things. Each kind of declarations has a slot with a shelf of its own, and the
-- provider's own schema is kept beside them. What is kept comes from the provider.

namespace ProviderKit.Server

variable {σ δ ι κ η : Type}

/-! ## What is kept -/

/-- Where the declarations on the shelf of a slot come from. -/
def Slot.source (s : Slot σ δ ι κ η) (provider : Provider σ δ) (typeName : String) :
    Source σ ι κ η := ⟨s.kind, typeName, s.declarations provider⟩

/-- What the server keeps of declarations comes from its provider. -/
structure Grounded (server : Server σ δ) : Prop where
  resources : server.resources.Grounded (resourceSlot.source server.provider server.typeName)
  dataSources : server.dataSources.Grounded (dataSourceSlot.source server.provider server.typeName)
  ephemeralResources :
    server.ephemeralResources.Grounded (ephemeralSlot.source server.provider server.typeName)
  functions : server.functions.Grounded (functionSlot.source server.provider server.typeName)
  stateStores : server.stateStores.Grounded (stateStoreSlot.source server.provider server.typeName)
  providerSchema : ∀ schema, server.providerSchema = some schema → ∃ world,
    (server.provider.declare world).1.schema.plain = schema ∧
      Diagnostics.hasError (server.provider.declare world).1.diagnostics = false

/-! ## Topics -/

/-- What there is to find out about a provider: its own schema, and what names stand for. -/
inductive Topic where
  | provider
  | resource (name : String)
  | dataSource (name : String)
  | ephemeralResource (name : String)
  | function (name : String)
  | stateStore (name : String)
  deriving DecidableEq

/-- The server has found out about the topic. -/
def keeps (server : Server σ δ) : Topic → Bool
  | .provider => server.providerSchema.isSome
  | .resource name => server.resources.keeps name
  | .dataSource name => server.dataSources.keeps name
  | .ephemeralResource name => server.ephemeralResources.keeps name
  | .function name => server.functions.keeps name
  | .stateStore name => server.stateStores.keeps name

theorem keeps_providerSchema (server : Server σ δ) (schema : PlainSchema) :
    keeps { server with providerSchema := some schema } =
      fun t => server.keeps t || t = .provider := by
  funext t
  cases t with
  | provider => exact (Bool.or_true _).symm
  | _ => exact (Bool.or_false _).symm

/-- What the provider says about a topic when it is found out. -/
def notices (provider : Provider σ δ) (typeName : String) (world : σ) : Topic → Diagnostics
  | .provider => (provider.declare world).1.diagnostics
  | .resource name => (resourceSlot.source provider typeName).notices world name
  | .dataSource name => (dataSourceSlot.source provider typeName).notices world name
  | .ephemeralResource name => (ephemeralSlot.source provider typeName).notices world name
  | .function name => (functionSlot.source provider typeName).notices world name
  | .stateStore name => (stateStoreSlot.source provider typeName).notices world name

/-- What is on the shelf of the slot is filed under topics of its own. -/
structure Slot.Files (s : Slot σ δ ι κ η) (topic : String → Topic) : Prop where
  injective : Function.Injective topic
  keeps : ∀ server name, server.keeps (topic name) = (s.shelf server).keeps name
  keeps_put : ∀ server shelf t, (∀ name, t ≠ topic name) →
    (s.put server shelf).keeps t = server.keeps t
  notices : ∀ provider typeName world name,
    notices provider typeName world (topic name) = (s.source provider typeName).notices world name

/-! ## Lawful slots -/

/-- A slot whose shelf is that of its kind, and no other. -/
structure Slot.Lawful (s : Slot σ δ ι κ η) : Prop extends Slot.Sound s where
  shelf_put : ∀ server shelf, s.shelf (s.put server shelf) = shelf
  grounded : ∀ server : Server σ δ, server.Grounded →
    (s.shelf server).Grounded (s.source server.provider server.typeName)
  put_grounded : ∀ (server : Server σ δ) shelf, server.Grounded →
    shelf.Grounded (s.source server.provider server.typeName) → (s.put server shelf).Grounded
  files : ∃ topic, s.Files topic

theorem lawful_resourceSlot : (resourceSlot : Slot σ δ _ _ _).Lawful where
  toSound := sound_resourceSlot
  shelf_put _ _ := rfl
  grounded _ h := h.resources
  put_grounded _ _ h hshelf := { h with resources := hshelf }
  files := ⟨.resource, {
    injective := fun _ _ => Topic.resource.inj
    keeps := fun _ _ => rfl
    keeps_put := fun _ _ t ht => by
      cases t with
      | resource name => exact absurd rfl (ht name)
      | _ => rfl
    notices := fun _ _ _ _ => rfl }⟩

theorem lawful_dataSourceSlot : (dataSourceSlot : Slot σ δ _ _ _).Lawful where
  toSound := sound_dataSourceSlot
  shelf_put _ _ := rfl
  grounded _ h := h.dataSources
  put_grounded _ _ h hshelf := { h with dataSources := hshelf }
  files := ⟨.dataSource, {
    injective := fun _ _ => Topic.dataSource.inj
    keeps := fun _ _ => rfl
    keeps_put := fun _ _ t ht => by
      cases t with
      | dataSource name => exact absurd rfl (ht name)
      | _ => rfl
    notices := fun _ _ _ _ => rfl }⟩

theorem lawful_ephemeralSlot : (ephemeralSlot : Slot σ δ _ _ _).Lawful where
  toSound := sound_ephemeralSlot
  shelf_put _ _ := rfl
  grounded _ h := h.ephemeralResources
  put_grounded _ _ h hshelf := { h with ephemeralResources := hshelf }
  files := ⟨.ephemeralResource, {
    injective := fun _ _ => Topic.ephemeralResource.inj
    keeps := fun _ _ => rfl
    keeps_put := fun _ _ t ht => by
      cases t with
      | ephemeralResource name => exact absurd rfl (ht name)
      | _ => rfl
    notices := fun _ _ _ _ => rfl }⟩

theorem lawful_functionSlot : (functionSlot : Slot σ δ _ _ _).Lawful where
  toSound := sound_functionSlot
  shelf_put _ _ := rfl
  grounded _ h := h.functions
  put_grounded _ _ h hshelf := { h with functions := hshelf }
  files := ⟨.function, {
    injective := fun _ _ => Topic.function.inj
    keeps := fun _ _ => rfl
    keeps_put := fun _ _ t ht => by
      cases t with
      | function name => exact absurd rfl (ht name)
      | _ => rfl
    notices := fun _ _ _ _ => rfl }⟩

theorem lawful_stateStoreSlot : (stateStoreSlot : Slot σ δ _ _ _).Lawful where
  toSound := sound_stateStoreSlot
  shelf_put _ _ := rfl
  grounded _ h := h.stateStores
  put_grounded _ _ h hshelf := { h with stateStores := hshelf }
  files := ⟨.stateStore, {
    injective := fun _ _ => Topic.stateStore.inj
    keeps := fun _ _ => rfl
    keeps_put := fun _ _ t ht => by
      cases t with
      | stateStore name => exact absurd rfl (ht name)
      | _ => rfl
    notices := fun _ _ _ _ => rfl }⟩

end ProviderKit.Server
