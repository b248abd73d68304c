import ProviderKit.Catalog.Kinds
import ProviderKit.Proofs.Schema.Behaviours

-- Conducts: ways for the code of a provider to behave. An action keeps one or does not, given what
-- it reports, and actions that keep it one after the other keep it together. A provider keeps a
-- conduct if all of its code does, and so does everything that this code gives.

namespace ProviderKit

/-! ## Conducts -/

/-- A way to behave. What an action reports can be read off its answer. -/
structure Conduct (σ : Type) where
  Keeps : {α : Type} → StateM σ α → (α → Diagnostics) → Prop
  pure : ∀ {α : Type} {a : α} {reported : α → Diagnostics}, reported a = [] →
    Keeps (Pure.pure a) reported
  bind : ∀ {α γ : Type} {action : StateM σ α} {next : α → StateM σ γ} {first : α → Diagnostics}
    {reported : γ → Diagnostics} (second : α → γ → Diagnostics),
    Keeps action first → (∀ world, Keeps (next (action world).1) (second (action world).1)) →
    (∀ world, let done := action world
      reported (next done.1 done.2).1 = first done.1 ++ second done.1 (next done.1 done.2).1) →
    Keeps (action >>= next) reported

namespace Conduct

variable {σ α γ : Type}

/-- The action keeps the conduct and reports nothing. -/
def Silent (C : Conduct σ) (action : StateM σ α) : Prop := C.Keeps action fun _ => []

/-- Any behaviour at all. -/
def any (σ : Type) : Conduct σ where
  Keeps _ _ := True
  pure _ := trivial
  bind _ _ _ _ := trivial

/-- Giving the same answer in every world. -/
def steady (σ : Type) : Conduct σ where
  Keeps action _ := ∀ v w, (action v).1 = (action w).1
  pure _ _ _ := rfl
  bind {_ _ action next _ _} _ hfirst hsecond _ v w := by
    have hnext : (next (action v).1 (action v).2).1 = (next (action w).1 (action w).2).1 := by
      rw [← hfirst v w]
      exact hsecond v _ _
    exact hnext

/-- Writing what is reported into a journal of the world, behind what stands there. -/
def recording (journal : σ → Diagnostics) : Conduct σ where
  Keeps action reported := ∀ world,
    journal (action world).2 = journal world ++ reported (action world).1
  pure {_ a reported} h world := by
    change journal world = journal world ++ reported a
    rw [h, List.append_nil]
  bind {_ _ action next _ reported} _ hfirst hsecond hreported world := by
    change journal (next (action world).1 (action world).2).2 =
      journal world ++ reported (next (action world).1 (action world).2).1
    rw [hreported world, hsecond world, hfirst world, List.append_assoc]

variable {C : Conduct σ} {action : StateM σ α} {next : α → StateM σ γ}

theorem silent_pure (a : α) : C.Silent (Pure.pure a : StateM σ α) := C.pure rfl

theorem Silent.bind {reported : γ → Diagnostics} (h : C.Silent action)
    (hnext : ∀ world, C.Keeps (next (action world).1) reported) :
    C.Keeps (action >>= next) reported :=
  C.bind (fun _ => reported) h hnext fun _ => rfl

end Conduct

/-! ## Schemas -/

variable {σ δ α : Type}

/-- The checks and changes of a modifier keep a conduct. -/
def PlanModifier.Keeps (C : Conduct σ) : PlanModifier σ → Prop
  | .requiresReplace => True
  | .requiresReplaceIf _ check => ∀ r, C.Keeps (check r) (·.2)
  | .useStateForUnknown => True
  | .custom _ modify => ∀ r, C.Keeps (modify r) (·.diagnostics)

structure Behaviour.Keeps (C : Conduct σ) (b : Behaviour σ) : Prop where
  modifiers : ∀ m ∈ b.planModifiers, m.Keeps C
  equality : ∀ predicate, b.semanticEquality = some predicate →
    ∀ prior proposed, C.Keeps (predicate prior proposed) (·.2)

def Schema.Keeps (C : Conduct σ) (s : ActiveSchema σ) : Prop := ∀ b ∈ s.behaviours, b.Keeps C

/-! ## Actions -/

/-- The check of configurations keeps a conduct, if there is one. -/
def ConfigCheck.Keeps (C : Conduct σ) (check : Option (ConfigCheck σ)) : Prop :=
  ∀ f, check = some f → ∀ config, C.Keeps (f config) id

structure Resource.Actions.Keeps (C : Conduct σ) (a : Resource.Actions σ) : Prop where
  create : ∀ r, C.Keeps (a.create r) (·.diagnostics)
  read : ∀ r, C.Keeps (a.read r) (·.diagnostics)
  update : ∀ r, C.Keeps (a.update r) (·.diagnostics)
  delete : ∀ r, C.Keeps (a.delete r) (·.diagnostics)
  modifyPlan : ∀ f, a.modifyPlan = some f → ∀ r, C.Keeps (f r) (·.diagnostics)
  validateConfig : ConfigCheck.Keeps C a.validateConfig
  upgraders : ∀ list, a.upgraders = some list → C.Silent list ∧
    ∀ world, ∀ e ∈ (list world).1, ∀ r, C.Keeps (e.2.upgrade r) (·.diagnostics)
  importState : ∀ f, a.importState = some f → ∀ r, C.Keeps (f r) (·.diagnostics)

structure DataSource.Actions.Keeps (C : Conduct σ) (a : DataSource.Actions σ) : Prop where
  read : ∀ r, C.Keeps (a.read r) (·.diagnostics)
  validateConfig : ConfigCheck.Keeps C a.validateConfig

structure EphemeralResource.Actions.Keeps (C : Conduct σ) (a : EphemeralResource.Actions σ) :
    Prop where
  openResource : ∀ r, C.Keeps (a.openResource r) (·.diagnostics)
  renew : ∀ f, a.renew = some f → ∀ data, C.Keeps (f data) (·.diagnostics)
  close : ∀ f, a.close = some f → ∀ data, C.Keeps (f data) id
  validateConfig : ConfigCheck.Keeps C a.validateConfig

structure StateStore.Actions.Keeps (C : Conduct σ) (a : StateStore.Actions σ δ) : Prop where
  setUp : ∀ r, C.Keeps (a.setUp r) (·.2)
  getStates : C.Keeps a.getStates (·.2)
  read : ∀ stateId, C.Keeps (a.read stateId) (·.2)
  write : ∀ stateId document, C.Keeps (a.write stateId document) id
  lock : ∀ stateId operation, C.Keeps (a.lock stateId operation) (·.2)
  unlock : ∀ stateId lockId, C.Keeps (a.unlock stateId lockId) id
  deleteState : ∀ stateId, C.Keeps (a.deleteState stateId) id
  validateConfig : ConfigCheck.Keeps C a.validateConfig

theorem onlyIf_eq_some {registered : Bool} {action : Option α} {a : α}
    (h : onlyIf registered action = some a) : action = some a := by
  unfold onlyIf at h
  split at h
  · exact h
  · cases h

theorem ConfigCheck.Keeps.onlyIf {C : Conduct σ} {check : Option (ConfigCheck σ)}
    (h : ConfigCheck.Keeps C check) (registered : Bool) :
    ConfigCheck.Keeps C (ProviderKit.onlyIf registered check) :=
  fun f hf => h f (onlyIf_eq_some hf)

theorem Resource.Actions.Keeps.within {C : Conduct σ} {a : Resource.Actions σ} (h : a.Keeps C)
    (c : Resource.Capabilities) : (a.within c).Keeps C :=
  { h with
    modifyPlan := fun f hf => h.modifyPlan f (onlyIf_eq_some hf)
    validateConfig := h.validateConfig.onlyIf _
    upgraders := fun list hlist => h.upgraders list (onlyIf_eq_some hlist)
    importState := fun f hf => h.importState f (onlyIf_eq_some hf) }

theorem DataSource.Actions.Keeps.within {C : Conduct σ} {a : DataSource.Actions σ} (h : a.Keeps C)
    (c : DataSource.Capabilities) : (a.within c).Keeps C :=
  { h with validateConfig := h.validateConfig.onlyIf _ }

theorem EphemeralResource.Actions.Keeps.within {C : Conduct σ} {a : EphemeralResource.Actions σ}
    (h : a.Keeps C) (c : EphemeralResource.Capabilities) : (a.within c).Keeps C :=
  { h with
    renew := fun f hf => h.renew f (onlyIf_eq_some hf)
    close := fun f hf => h.close f (onlyIf_eq_some hf)
    validateConfig := h.validateConfig.onlyIf _ }

theorem StateStore.Actions.Keeps.within {C : Conduct σ} {a : StateStore.Actions σ δ} (h : a.Keeps C)
    (c : StateStore.Capabilities) : (a.within c).Keeps C :=
  { h with validateConfig := h.validateConfig.onlyIf _ }

/-! ## Declarations -/

/-- A declared type keeps a conduct if its name and its schema do, and all actions that it gives. -/
structure DeclaredType.Keeps (C : Conduct σ) (KeepsActions : α → Prop) (t : DeclaredType σ δ α) :
    Prop where
  name : ∀ providerName, C.Silent (t.name providerName)
  declare : C.Silent t.declare
  schema : ∀ world, (t.declare world).1.schema.Keeps C
  configure : ∀ f, t.configure = some f → ∀ data, C.Keeps (f data) (·.2)
  configured : ∀ f, t.configure = some f → ∀ data world, KeepsActions (f data world).1.1
  actions : KeepsActions t.actions

structure ProviderFunction.Keeps (C : Conduct σ) (f : ProviderFunction σ) : Prop where
  name : C.Silent f.name
  define : C.Silent f.define
  run : ∀ arguments, C.Silent (f.run arguments)

/-- Making an instance keeps a conduct, and every instance is a good one. -/
structure Factory.Keeps {ι : Type} (C : Conduct σ) (Good : ι → Prop) (factory : Factory σ ι) :
    Prop where
  make : C.Silent factory
  made : ∀ world, Good (factory world).1

structure KeepsListing {ι : Type} (C : Conduct σ) (Good : ι → Prop)
    (declarations : StateM σ (List (Factory σ ι))) : Prop where
  list : C.Silent declarations
  factories : ∀ world, ∀ factory ∈ (declarations world).1, Factory.Keeps C Good factory

/-- A provider keeps a conduct if all of its code does. -/
structure Provider.Keeps (C : Conduct σ) (p : Provider σ δ) : Prop where
  metadata : C.Silent p.metadata
  declare : C.Silent p.declare
  configure : ∀ r, C.Keeps (p.configure r) (·.2)
  validateConfig : ConfigCheck.Keeps C p.validateConfig
  resources : KeepsListing C (DeclaredType.Keeps C (Resource.Actions.Keeps C)) p.resources
  dataSources : KeepsListing C (DeclaredType.Keeps C (DataSource.Actions.Keeps C)) p.dataSources
  ephemeralResources :
    KeepsListing C (DeclaredType.Keeps C (EphemeralResource.Actions.Keeps C)) p.ephemeralResources
  functions : KeepsListing C (ProviderFunction.Keeps C) p.functions
  stateStores : KeepsListing C (DeclaredType.Keeps C (StateStore.Actions.Keeps C)) p.stateStores

/-! ## Any behaviour -/

theorem Behaviour.keeps_any (b : Behaviour σ) : b.Keeps (.any σ) where
  modifiers m _ := by
    cases m with
    | requiresReplace => trivial
    | requiresReplaceIf _ _ => exact fun _ => trivial
    | useStateForUnknown => trivial
    | custom _ _ => exact fun _ => trivial
  equality _ _ _ _ := trivial

theorem DeclaredType.keeps_any {KeepsActions : α → Prop} (h : ∀ a, KeepsActions a)
    (t : DeclaredType σ δ α) : t.Keeps (.any σ) KeepsActions where
  name _ := trivial
  declare := trivial
  schema _ b _ := b.keeps_any
  configure _ _ _ := trivial
  configured _ _ _ _ := h _
  actions := h _

theorem keepsListing_any {ι : Type} {Good : ι → Prop} (h : ∀ i, Good i)
    (declarations : StateM σ (List (Factory σ ι))) : KeepsListing (.any σ) Good declarations :=
  ⟨trivial, fun _ _ _ => ⟨trivial, fun _ => h _⟩⟩

/-- Whatever the code of a provider does is some behaviour. -/
theorem Provider.keeps_any (p : Provider σ δ) : p.Keeps (.any σ) where
  metadata := trivial
  declare := trivial
  configure _ := trivial
  validateConfig _ _ _ := trivial
  resources := keepsListing_any (DeclaredType.keeps_any fun _ =>
    { create := fun _ => trivial
      read := fun _ => trivial
      update := fun _ => trivial
      delete := fun _ => trivial
      modifyPlan := fun _ _ _ => trivial
      validateConfig := fun _ _ _ => trivial
      upgraders := fun _ _ => ⟨trivial, fun _ _ _ _ => trivial⟩
      importState := fun _ _ _ => trivial }) _
  dataSources := keepsListing_any (DeclaredType.keeps_any fun _ =>
    ⟨fun _ => trivial, fun _ _ _ => trivial⟩) _
  ephemeralResources := keepsListing_any (DeclaredType.keeps_any fun _ =>
    ⟨fun _ => trivial, fun _ _ _ => trivial, fun _ _ _ => trivial, fun _ _ _ => trivial⟩) _
  functions := keepsListing_any (fun _ => ⟨trivial, trivial, fun _ => trivial⟩) _
  stateStores := keepsListing_any (DeclaredType.keeps_any fun _ =>
    { setUp := fun _ => trivial
      getStates := trivial
      read := fun _ => trivial
      write := fun _ _ => trivial
      lock := fun _ _ => trivial
      unlock := fun _ _ => trivial
      deleteState := fun _ => trivial
      validateConfig := fun _ _ _ => trivial }) _

/-! ## Actions that keep a log -/

-- They write at the end of the log only, and what was reported by then can be read off the part
-- that they wrote.

section

variable {σ χ α γ : Type}

/-- The action writes at the end of its log, and keeps a conduct when what it reports is what the
entries say that it wrote. -/
structure Conduct.Logs (C : Conduct σ) (said : χ → Diagnostics)
    (action : StateT (List χ) (StateM σ) α) : Prop where
  writes : ∀ log world, log <+: (action log world).1.2
  keeps : ∀ log, C.Keeps (action log) fun done => (done.2.drop log.length).flatMap said

namespace Conduct

variable {C : Conduct σ} {said : χ → Diagnostics} {action : StateT (List χ) (StateM σ) α}
  {next : α → StateT (List χ) (StateM σ) γ}

theorem logs_pure (a : α) : C.Logs said (Pure.pure a : StateT (List χ) (StateM σ) α) where
  writes _ _ := List.prefix_rfl
  keeps log := C.pure (by rw [List.drop_length, List.flatMap_nil])

/-- What was written first and what was written then, behind a log. -/
theorem drop_written {log middle done : List χ} (hfirst : log <+: middle)
    (hthen : middle <+: done) :
    done.drop log.length = middle.drop log.length ++ done.drop middle.length := by
  obtain ⟨first, rfl⟩ := hfirst
  obtain ⟨second, rfl⟩ := hthen
  rw [List.append_assoc, List.drop_left, List.drop_left, ← List.append_assoc, List.drop_left]

theorem Logs.bind (h : C.Logs said action) (hnext : ∀ a, C.Logs said (next a)) :
    C.Logs said (action >>= next) where
  writes log world := (h.writes log world).trans ((hnext _).writes _ _)
  keeps log := by
    change C.Keeps (action log >>= fun middle => next middle.1 middle.2) _
    refine C.bind (fun middle done => (done.2.drop middle.2.length).flatMap said) (h.keeps log)
      (fun world => (hnext _).keeps _) fun world => ?_
    dsimp only
    rw [drop_written (h.writes log world) ((hnext _).writes _ _), List.flatMap_append]

theorem Logs.map (h : C.Logs said action) (f : α → γ) : C.Logs said (do return f (← action)) :=
  h.bind fun a => logs_pure (f a)

/-- An action outside is carried out, and an entry that says what it reported is written. -/
theorem Logs.record {outer : List χ → StateM σ α} (reported : α → Diagnostics)
    {entry : List χ → α → χ} {next : List χ → α → StateT (List χ) (StateM σ) γ}
    (houter : ∀ log, C.Keeps (outer log) reported)
    (hsaid : ∀ log a, said (entry log a) = reported a) (hnext : ∀ log a, C.Logs said (next log a)) :
    C.Logs said (do
      let log ← get
      let a ← outer log
      set (log ++ [entry log a])
      next log a) where
  writes log world := (List.prefix_append log _).trans ((hnext _ _).writes _ _)
  keeps log := by
    change C.Keeps (outer log >>= fun a => next log a (log ++ [entry log a])) _
    refine C.bind (fun a done => (done.2.drop (log ++ [entry log a]).length).flatMap said)
      (houter log) (fun world => (hnext _ _).keeps _) fun world => ?_
    have hwritten : (log ++ [entry log (outer log world).1]).drop log.length =
        [entry log (outer log world).1] := List.drop_left
    dsimp only
    rw [drop_written (List.prefix_append log _) ((hnext _ _).writes _ _), List.flatMap_append,
      hwritten, List.flatMap_singleton, hsaid]

/-- A log that starts empty says all that was reported. -/
theorem Logs.run (h : C.Logs said action) (give : α → List χ → γ) {reported : γ → Diagnostics}
    (hreported : ∀ a log, reported (give a log) = log.flatMap said) :
    C.Keeps (do
      let (a, log) ← action.run []
      return give a log) reported := by
  refine C.bind (fun _ _ => []) (h.keeps []) (fun world => C.pure rfl) fun world => ?_
  dsimp only
  rw [List.append_nil]
  exact hreported _ _

end Conduct

end

end ProviderKit
