import ProviderKit.Proofs.Server.Asides
import ProviderKit.Proofs.Server.Composed
import ProviderKit.Proofs.Server.Runs

-- Every request is put together from what a request may do, if the provider keeps a conduct. What
-- the provider declares, makes and answers keeps it too, so each step may rely on the steps before.

namespace ProviderKit.Server

variable {σ δ α γ ι κ η : Type} {C : Conduct σ} {provider : Provider σ δ} {typeName : String}

/-! ## Instances -/

theorem keeps_ofTypes {noun label : String} {capabilities : DeclaredType σ δ α → κ}
    {KeepsActions : α → Prop} {declarations : StateM σ (List (Factory σ (DeclaredType σ δ α)))}
    (h : KeepsListing C (DeclaredType.Keeps C KeepsActions) declarations) :
    Source.Keeps C (DeclaredType.Keeps C KeepsActions)
      ⟨Kind.ofTypes noun label capabilities, typeName, declarations⟩ where
  listing := h
  name _ ht := ht.name typeName
  describe _ ht := ht.declare.bind fun _ => Conduct.silent_pure _

/-- Types of a slot keep the conduct, and so do the schemas that describe them. -/
structure Slot.KeepsTypes (C : Conduct σ) (provider : Provider σ δ) (typeName : String)
    (KeepsActions : α → Prop) (s : Slot σ δ (DeclaredType σ δ α) κ (ActiveSchema σ)) : Prop where
  lawful : s.Lawful
  source : (s.source provider typeName).Keeps C (DeclaredType.Keeps C KeepsActions)
  schema : ∀ t : DeclaredType σ δ α, t.Keeps C KeepsActions →
    ∀ world, (s.kind.describe t world).1.1.Keeps C

section

variable (h : provider.Keeps C)

include h

theorem keepsTypes_resourceSlot :
    resourceSlot.KeepsTypes C provider typeName (Resource.Actions.Keeps C) where
  lawful := lawful_resourceSlot
  source := keeps_ofTypes h.resources
  schema _ ht := ht.schema

theorem keepsTypes_dataSourceSlot :
    dataSourceSlot.KeepsTypes C provider typeName (DataSource.Actions.Keeps C) where
  lawful := lawful_dataSourceSlot
  source := keeps_ofTypes h.dataSources
  schema _ ht := ht.schema

theorem keepsTypes_ephemeralSlot :
    ephemeralSlot.KeepsTypes C provider typeName (EphemeralResource.Actions.Keeps C) where
  lawful := lawful_ephemeralSlot
  source := keeps_ofTypes h.ephemeralResources
  schema _ ht := ht.schema

theorem keepsTypes_stateStoreSlot :
    stateStoreSlot.KeepsTypes C provider typeName (StateStore.Actions.Keeps C) where
  lawful := lawful_stateStoreSlot
  source := keeps_ofTypes h.stateStores
  schema _ ht := ht.schema

theorem keeps_functionSource :
    (functionSlot.source provider typeName).Keeps C (ProviderFunction.Keeps C) where
  listing := h.functions
  name _ hf := hf.name
  describe _ hf := hf.define

end

section

variable {KeepsActions : α → Prop} {s : Slot σ δ (DeclaredType σ δ α) κ (ActiveSchema σ)}
  (hs : s.KeepsTypes C provider typeName KeepsActions)

include hs

/-- What is offered under a name has a good factory and a good schema. -/
theorem Slot.KeepsTypes.offers {name : String} {entry : Entry σ (DeclaredType σ δ α) κ}
    {schema : ActiveSchema σ} (h : (s.source provider typeName).Offers name entry schema) :
    Factory.Keeps C (DeclaredType.Keeps C KeepsActions) entry.factory ∧ schema.Keeps C := by
  have hfactory := hs.source.factory h.declared
  obtain ⟨world, rfl, -⟩ := h.described
  exact ⟨hfactory, hs.schema _ (hfactory.made world) _⟩

/-- A name stands for a good factory and a good schema, if for anything. -/
theorem Slot.KeepsTypes.composed_resolve (name : String) :
    Composed C provider typeName (fun found => ∀ r, found = some r →
        Factory.Keeps C (DeclaredType.Keeps C KeepsActions) r.1.factory ∧ r.2.Keeps C)
      (Rpc.resolve s name) :=
  (Composed.resolve hs.lawful hs.source name).mono fun _ hfound r hr =>
    hs.offers (hfound r.1 r.2 hr)

theorem Slot.KeepsTypes.composed_instantiate {factory : Factory σ (DeclaredType σ δ α)}
    (hfactory : factory.Keeps C (DeclaredType.Keeps C KeepsActions)) (name : String)
    (takesData : Bool) :
    Composed C provider typeName KeepsActions (Rpc.instantiate s name takesData factory) := by
  refine .ask (fun f g hagrees _ => ?_) fun f _ => ?_
  · rw [hs.lawful.data, hs.lawful.data, hagrees.shared, hagrees.storeData]
  refine (Composed.act hfactory.make hfactory.made).bind fun fresh hfresh => ?_
  split
  · exact .pure hfresh.actions
  · next configure hconfigure =>
    have hsome := onlyIf_eq_some hconfigure
    exact (Composed.call rfl (hfresh.configure _ hsome _)
      (Q := fun answer => KeepsActions answer.1)
      fun world => hfresh.configured _ hsome _ world).bind fun _ hanswer => .pure hanswer

/-- Without an error there is an instance, and its actions are good, and so is its schema. -/
theorem Slot.KeepsTypes.composed_fresh {takesData : κ → Bool} {within : α → κ → α}
    (hwithin : ∀ a c, KeepsActions a → KeepsActions (within a c)) (name : String) :
    Composed C provider typeName (fun ready => ∀ r, ready = some r →
        KeepsActions r.1 ∧ r.2.Keeps C) (Rpc.fresh s takesData within name) := by
  refine (hs.composed_resolve name).bind_option (.pure fun _ hr => by cases hr) ?_
  intro found hfound
  refine (hs.composed_instantiate hfound.1 name _).bind fun actions hactions => .pure ?_
  rintro _ ⟨⟩
  exact ⟨hwithin _ _ hactions, hfound.2⟩

end

/-! ## Steps that only report -/

/-- The step reports what does not depend on the frame. -/
theorem composed_putOff (config : Described) :
    Composed C provider typeName (fun _ => True) (putOff config : Rpc σ δ (Option Value)) := by
  unfold putOff
  split
  · exact .pure trivial
  · exact .report_pure _ trivial

theorem composed_decodePrivate (bytes : Bytes) :
    Composed C provider typeName (fun _ => True)
      (Rpc.decodePrivate bytes : Rpc σ δ PrivateState) := .report_pure _ trivial

theorem composed_encodePrivate (s : PrivateState) :
    Composed C provider typeName (fun _ => True) (Rpc.encodePrivate s : Rpc σ δ Bytes) :=
  .report_pure _ trivial

theorem composed_threadPrivate (bytes : Bytes) (prior current : PrivateState) :
    Composed C provider typeName (fun _ => True)
      (Rpc.threadPrivate bytes prior current : Rpc σ δ Bytes) :=
  (Composed.pure trivial).ite (composed_encodePrivate current)

theorem composed_checkDeferral (label : String) (client : ClientCapabilities)
    (deferred : Option Deferral) :
    Composed C provider typeName (fun _ => True)
      (checkDeferral label client deferred : Rpc σ δ Unit) :=
  (Composed.report _).ite (.pure trivial)

/-! ## Steps that ask the server -/

theorem composed_providerMeta (raw : Option Value) :
    Composed C provider typeName (fun _ => True) (Rpc.providerMeta raw : Rpc σ δ Described) :=
  .ask (fun f g hagrees _ => by rw [hagrees.metaSchema]) fun _ _ => .pure trivial

theorem composed_providerDeferral (client : ClientCapabilities) :
    Composed C provider typeName (fun _ => True)
      (providerDeferral client : Rpc σ δ (Option Deferral)) :=
  .ask (fun f g hagrees _ => by dsimp only; rw [hagrees.options, hagrees.shared])
    fun _ _ => .pure trivial

/-! ## Checking and comparing -/

theorem composed_checkFurther (config : Described) {check : Option (ConfigCheck σ)}
    (h : ConfigCheck.Keeps C check) :
    Composed C provider typeName (fun _ => True) (checkFurther config check : Rpc σ δ Unit) := by
  unfold checkFurther
  cases check with
  | none => exact .pure trivial
  | some check =>
    exact Composed.call_andThen rfl (h check rfl config) fun _ => .pure trivial

theorem composed_checkConfig (schema : PlainSchema) (raw : Value) {check : Option (ConfigCheck σ)}
    (h : ConfigCheck.Keeps C check) :
    Composed C provider typeName (fun _ => True) (checkConfig schema raw check : Rpc σ δ Unit) :=
  (Composed.report _).andThen fun _ => composed_checkFurther _ h

theorem reconcile_eq_callAll (schema : ActiveSchema σ) (prior proposed : Value) :
    (Rpc.reconcile schema prior proposed : Rpc σ δ Value) =
      ((do
        let r ← Rpc.act (schema.reconcile prior proposed)
        Rpc.noteAll Callback.compareValues EqualityCall.diagnostics r.calls
        return r) >>= fun r =>
          return if r.calls.any EqualityCall.failed then proposed else r.value) := rfl

theorem composed_reconcile {schema : ActiveSchema σ} (h : schema.Keeps C)
    (prior proposed : Value) :
    Composed C provider typeName (fun _ => True)
      (Rpc.reconcile schema prior proposed : Rpc σ δ Value) := by
  rw [reconcile_eq_callAll]
  exact (Composed.callAll (h.reconcile prior proposed) notes_compareValues
    fun _ => trivial).andThen fun _ => .pure trivial

theorem composed_reconcile_unless_failed {schema : ActiveSchema σ} (h : schema.Keeps C)
    (prior proposed : Value) (give : Value → α) :
    Composed C provider typeName (fun _ => True)
      (do
        if ← Rpc.failed then return give proposed
        return give (← Rpc.reconcile schema prior proposed) : Rpc σ δ α) :=
  Composed.unless_failed trivial ((composed_reconcile h prior proposed).andThen fun _ =>
    .pure trivial)

section

variable (h : provider.Keeps C)

include h

/-! ## Describing -/

theorem composed_getMetadata :
    Composed C provider typeName (fun _ => True) (getMetadata : Rpc σ δ MetadataResult) := by
  refine .ask (fun f g hagrees _ => by rw [hagrees.options]) fun f _ => ?_
  refine (Composed.listNames lawful_resourceSlot (keepsTypes_resourceSlot h).source).andThen
    fun _ => ?_
  refine (Composed.listNames lawful_dataSourceSlot (keepsTypes_dataSourceSlot h).source).andThen
    fun _ => ?_
  refine (Composed.listNames lawful_ephemeralSlot (keepsTypes_ephemeralSlot h).source).andThen
    fun _ => ?_
  refine (Composed.listNames lawful_stateStoreSlot (keepsTypes_stateStoreSlot h).source).andThen
    fun _ => ?_
  exact (Composed.listNames lawful_functionSlot (keeps_functionSource h)).andThen
    fun _ => .pure trivial

theorem composed_getFunctions : Composed C provider typeName (fun _ => True)
    (getFunctions : Rpc σ δ (Keyed FunctionDefinition)) :=
  .describeAll lawful_functionSlot (keeps_functionSource h)

theorem composed_getProviderSchema :
    Composed C provider typeName (fun _ => True) (getProviderSchema : Rpc σ δ SchemasResult) := by
  refine .ask (fun f g hagrees _ => by dsimp only; rw [hagrees.options, hagrees.metaSchema])
    fun f _ => ?_
  refine (Composed.providerSchema h.declare).andThen fun _ => ?_
  refine (Composed.describeAll lawful_resourceSlot (keepsTypes_resourceSlot h).source).andThen
    fun _ => ?_
  refine (Composed.describeAll lawful_dataSourceSlot (keepsTypes_dataSourceSlot h).source).andThen
    fun _ => ?_
  refine (Composed.describeAll lawful_ephemeralSlot (keepsTypes_ephemeralSlot h).source).andThen
    fun _ => ?_
  refine (Composed.describeAll lawful_stateStoreSlot (keepsTypes_stateStoreSlot h).source).andThen
    fun _ => ?_
  exact (composed_getFunctions h).andThen fun _ => .pure trivial

/-! ## Instances by kind -/

theorem composed_freshResource (name : String) :
    Composed C provider typeName (fun ready => ∀ r, ready = some r →
      r.1.Keeps C ∧ r.2.Keeps C)
      (freshResource name : Rpc σ δ (Option (Resource.Actions σ × ActiveSchema σ))) :=
  (keepsTypes_resourceSlot h).composed_fresh (fun _ c ha => ha.within c) name

theorem composed_freshDataSource (name : String) :
    Composed C provider typeName (fun ready => ∀ r, ready = some r →
      r.1.Keeps C ∧ r.2.Keeps C)
      (freshDataSource name : Rpc σ δ (Option (DataSource.Actions σ × ActiveSchema σ))) :=
  (keepsTypes_dataSourceSlot h).composed_fresh (fun _ c ha => ha.within c) name

theorem composed_freshEphemeral (name : String) :
    Composed C provider typeName (fun ready => ∀ r, ready = some r →
      r.1.Keeps C ∧ r.2.Keeps C)
      (freshEphemeral name : Rpc σ δ (Option (EphemeralResource.Actions σ × ActiveSchema σ))) :=
  (keepsTypes_ephemeralSlot h).composed_fresh (fun _ c ha => ha.within c) name

theorem composed_freshStore (name : String) :
    Composed C provider typeName (fun ready => ∀ r, ready = some r →
      r.1.Keeps C ∧ r.2.Keeps C)
      (freshStore name : Rpc σ δ (Option (StateStore.Actions σ δ × ActiveSchema σ))) :=
  (keepsTypes_stateStoreSlot h).composed_fresh (fun _ c ha => ha.within c) name

/-! ## Checking -/

theorem composed_validateProvider (config : Option Value) :
    Composed C provider typeName (fun _ => True) (validateProvider config : Rpc σ δ Unit) := by
  refine (Composed.providerSchema h.declare).andThen fun schema => ?_
  cases schema with
  | none => exact .pure trivial
  | some schema =>
    refine .ask (fun f g hagrees _ => by rw [hagrees.provider]) fun f hprovider => ?_
    rw [hprovider]
    exact composed_checkConfig _ _ h.validateConfig

omit h in
theorem composed_check_rest (schema : PlainSchema) (config : Option Value)
    {check : Option (ConfigCheck σ)} (hcheck : ConfigCheck.Keeps C check) :
    Composed C provider typeName (fun _ => True)
      (do
        if ← Rpc.failed then return
        let some raw := config | return
        checkConfig schema raw check : Rpc σ δ Unit) := by
  refine Composed.unless_failed trivial ?_
  cases config with
  | none => exact .pure trivial
  | some raw => exact composed_checkConfig _ _ hcheck

theorem composed_validateResource (r : ValidateRequest) :
    Composed C provider typeName (fun _ => True) (validateResource r : Rpc σ δ Unit) :=
  (composed_freshResource h _).bind_option (.pure trivial) fun _ hready =>
    composed_check_rest _ _ hready.1.validateConfig

theorem composed_validateDataSource (r : ValidateRequest) :
    Composed C provider typeName (fun _ => True) (validateDataSource r : Rpc σ δ Unit) :=
  (composed_freshDataSource h _).bind_option (.pure trivial) fun _ hready =>
    composed_check_rest _ _ hready.1.validateConfig

theorem composed_validateEphemeral (r : ValidateRequest) :
    Composed C provider typeName (fun _ => True) (validateEphemeral r : Rpc σ δ Unit) :=
  (composed_freshEphemeral h _).bind_option (.pure trivial) fun _ hready =>
    composed_check_rest _ _ hready.1.validateConfig

theorem composed_validateStore (r : ValidateRequest) :
    Composed C provider typeName (fun _ => True) (validateStore r : Rpc σ δ Unit) := by
  refine ((keepsTypes_stateStoreSlot h).composed_resolve _).bind_option (.pure trivial)
    fun found hfound => ?_
  dsimp only
  cases r.config with
  | none => exact .pure trivial
  | some raw =>
    refine (Composed.report _).andThen fun _ => Composed.ite ?_ (.pure trivial)
    exact (Composed.act hfound.1.make hfound.1.made).bind fun _ hfresh =>
      composed_checkFurther _ hfresh.actions.validateConfig

/-! ## Reading and importing -/

theorem composed_readResource (r : ReadRequest) :
    Composed C provider typeName (fun _ => True) (readResource r : Rpc σ δ ReadResult) := by
  unfold readResource
  cases r.currentState with
  | none => exact .report_pure _ trivial
  | some current =>
    refine (composed_freshResource h _).bind_option (.pure trivial) fun ready hready => ?_
    refine (composed_decodePrivate _).andThen fun prior => Composed.unless_failed trivial ?_
    refine (composed_providerDeferral _).andThen fun deferral => ?_
    cases deferral with
    | some deferral => exact .pure trivial
    | none =>
      refine (composed_providerMeta _).andThen fun _ => ?_
      refine Composed.call_andThen rfl (hready.1.read _) fun answer => ?_
      refine (composed_checkDeferral _ _ _).andThen fun _ => ?_
      refine (composed_threadPrivate _ _ _).andThen fun privateBytes => ?_
      exact composed_reconcile_unless_failed hready.2 current answer.state.raw
        fun state => ReadResult.mk state privateBytes answer.deferred

theorem composed_importResource (r : ImportRequest) :
    Composed C provider typeName (fun _ => True) (importResource r : Rpc σ δ ImportResult) := by
  unfold importResource
  refine (composed_freshResource h _).bind_option (.pure trivial) fun ready hready => ?_
  refine Composed.unless_failed trivial ((composed_providerDeferral _).andThen fun deferral => ?_)
  cases deferral with
  | some deferral => exact .pure trivial
  | none =>
    dsimp only
    cases himport : ready.1.importState with
    | none => exact .report_pure _ trivial
    | some importState =>
      refine Composed.call_andThen rfl (hready.1.importState _ himport _) fun answer => ?_
      refine (composed_checkDeferral _ _ _).andThen fun _ => Composed.unless_failed trivial ?_
      cases answer.deferred with
      | some deferral => exact .pure trivial
      | none =>
        refine Composed.ite (.report_pure _ trivial) ?_
        exact (composed_encodePrivate _).andThen fun _ => .pure trivial

theorem composed_readDataSource (r : ReadDataRequest) :
    Composed C provider typeName (fun _ => True) (readDataSource r : Rpc σ δ DataResult) := by
  unfold readDataSource
  refine (composed_freshDataSource h _).bind_option (.pure trivial) fun ready hready => ?_
  refine Composed.unless_failed trivial ((composed_providerDeferral _).andThen fun deferral => ?_)
  cases deferral with
  | some deferral =>
    refine (composed_putOff _).andThen fun found => ?_
    cases found with
    | none => exact .pure trivial
    | some state => exact .pure trivial
  | none =>
    refine (composed_providerMeta _).andThen fun _ => ?_
    refine Composed.call_andThen rfl (hready.1.read _) fun answer => ?_
    refine (composed_checkDeferral _ _ _).andThen fun _ => ?_
    exact composed_reconcile_unless_failed hready.2 _ answer.state.raw
      fun state => DataResult.mk state answer.deferred

/-! ## Planning -/

omit h in
theorem composed_normalized (schema : PlainSchema) (v : Option Value) :
    Composed C provider typeName (fun _ => True)
      (normalized schema v : Rpc σ δ (Option Value)) := by
  unfold normalized
  split
  · exact .pure trivial
  · exact .report_pure _ trivial

omit h in
theorem composed_requestedChange (schema : PlainSchema) (r : PlanRequest) :
    Composed C provider typeName (fun _ => True)
      (requestedChange schema r : Rpc σ δ (Option Change)) := by
  refine (composed_normalized _ _).andThen fun config => (composed_normalized _ _).andThen
    fun prior => (composed_normalized _ _).andThen fun proposed =>
      (composed_providerMeta _).andThen fun _ => ?_
  split
  · exact .pure trivial
  · exact .pure trivial

omit h in
theorem modifyAttributes_eq_callAll (schema : ActiveSchema σ) (c : Change) (p : Planned) :
    (modifyAttributes schema c p : Rpc σ δ Planned) =
      if p.plan.isNull then pure p
      else (do
        let m ← Rpc.act
          (schema.modifyPlan ⟨c.config, p.plan, c.prior, c.providerMeta, p.privateState.provider⟩)
        Rpc.noteAll (fun call => Callback.modifyAttribute call.request) ModifierCall.reported
          m.calls
        return m) >>= fun m => return { p with
          plan := m.plan
          requiresReplace := m.requiresReplace
          privateState := { p.privateState with provider := m.privateData } } := rfl

omit h in
theorem composed_modifyAttributes {schema : ActiveSchema σ} (hschema : schema.Keeps C)
    (c : Change) (p : Planned) :
    Composed C provider typeName (fun _ => True)
      (modifyAttributes schema c p : Rpc σ δ Planned) := by
  rw [modifyAttributes_eq_callAll]
  refine Composed.ite (.pure trivial) (Composed.andThen ?_ fun _ => .pure trivial)
  exact .callAll (hschema.modifyPlan _)
    (fun _ => Callback.notes_of_plain rfl _) fun _ => trivial

omit h in
theorem composed_modifyWhole {actions : Resource.Actions σ} (hactions : actions.Keeps C)
    (c : Change) (p : Planned) :
    Composed C provider typeName (fun _ => True)
      (modifyWhole actions c p : Rpc σ δ Planned) := by
  unfold modifyWhole
  cases hwhole : actions.modifyPlan with
  | none => exact .pure trivial
  | some modifyPlan =>
    exact Composed.call_andThen rfl (hactions.modifyPlan _ hwhole _) fun _ =>
      (composed_checkDeferral _ _ _).andThen fun _ => .pure trivial

omit h in
theorem composed_planStages {actions : Resource.Actions σ} {schema : ActiveSchema σ}
    (hactions : actions.Keeps C) (hschema : schema.Keeps C) (c : Change) (prior : PrivateState) :
    Composed C provider typeName (fun _ => True)
      (planStages actions schema c prior : Rpc σ δ Planned) := by
  unfold planStages
  dsimp only
  refine (Composed.report _).andThen fun _ => (Composed.pure trivial).ite ?_
  refine (composed_providerDeferral _).andThen fun deferral => ?_
  cases deferral with
  | some deferral => exact .pure trivial
  | none =>
    refine (composed_modifyAttributes hschema c _).andThen fun p => .unless_failed trivial ?_
    refine (composed_modifyWhole hactions c p).andThen fun p => .unless_failed trivial ?_
    exact (Composed.report_pure _ trivial).ite (.pure trivial)

theorem composed_planResource (r : PlanRequest) :
    Composed C provider typeName (fun _ => True) (planResource r : Rpc σ δ PlanResult) := by
  unfold planResource
  refine (composed_freshResource h _).bind_option (.pure trivial) fun ready hready => ?_
  refine .unless_failed trivial ((composed_decodePrivate _).andThen fun prior => ?_)
  refine .unless_failed trivial ((composed_requestedChange _ r).andThen fun change => ?_)
  cases change with
  | none => exact .pure trivial
  | some c =>
    exact (composed_planStages hready.1 hready.2 c prior).andThen fun p =>
      (composed_threadPrivate _ _ _).andThen fun _ => .pure trivial

/-! ## Changing and upgrading -/

theorem composed_prepare (r : ApplyRequest) :
    Composed C provider typeName (fun prepared => ∀ p, prepared = some p →
      p.actions.Keeps C ∧ p.schema.Keeps C) (prepare r : Rpc σ δ (Option (Prepared σ))) := by
  have hnone : ∀ p, (none : Option (Prepared σ)) = some p →
      p.actions.Keeps C ∧ p.schema.Keeps C := fun _ hp => by cases hp
  refine (composed_freshResource h _).bind_option (.pure hnone) fun ready hready => ?_
  refine (composed_decodePrivate _).andThen fun _ => .unless_failed hnone (.pure ?_)
  rintro _ ⟨⟩
  exact hready

omit h in
theorem composed_conclude {p : Prepared σ} (hp : p.schema.Keeps C) (plan : Value)
    (missing : Diagnostic) (answer : Resource.Changed) :
    Composed C provider typeName (fun _ => True)
      (conclude p plan missing answer : Rpc σ δ ApplyResult) := by
  refine (composed_encodePrivate _).andThen fun privateBytes => Composed.failed.andThen fun _ => ?_
  have hrest : Composed C provider typeName (fun _ => True) (do
      if ← Rpc.failed then return ApplyResult.mk answer.state.raw privateBytes
      return ApplyResult.mk (← Rpc.reconcile p.schema plan answer.state.raw) privateBytes :
        Rpc σ δ ApplyResult) :=
    composed_reconcile_unless_failed hp plan answer.state.raw
      fun state => ApplyResult.mk state privateBytes
  exact ((Composed.report _).andThen fun _ => hrest).ite hrest

theorem composed_createResource (r : ApplyRequest) :
    Composed C provider typeName (fun _ => True) (createResource r : Rpc σ δ ApplyResult) :=
  (composed_prepare h r).bind_option (.pure trivial) fun _ hp =>
    (composed_providerMeta _).andThen fun _ =>
      Composed.call_andThen rfl (hp.1.create _) fun answer => composed_conclude hp.2 _ _ answer

theorem composed_updateResource (r : ApplyRequest) :
    Composed C provider typeName (fun _ => True) (updateResource r : Rpc σ δ ApplyResult) :=
  (composed_prepare h r).bind_option (.pure trivial) fun _ hp =>
    (composed_providerMeta _).andThen fun _ =>
      Composed.call_andThen rfl (hp.1.update _) fun answer => composed_conclude hp.2 _ _ answer

theorem composed_deleteResource (r : ApplyRequest) :
    Composed C provider typeName (fun _ => True) (deleteResource r : Rpc σ δ ApplyResult) :=
  (composed_prepare h r).bind_option (.pure trivial) fun _ hp =>
    (composed_providerMeta _).andThen fun _ =>
      Composed.call_andThen rfl (hp.1.delete _) fun _ => Composed.failed.andThen fun _ =>
        (composed_encodePrivate _).andThen fun _ => .pure trivial

theorem composed_applyResource (r : ApplyRequest) :
    Composed C provider typeName (fun _ => True) (applyResource r : Rpc σ δ ApplyResult) := by
  unfold applyResource
  split
  · exact composed_createResource h r
  · exact composed_updateResource h r
  · exact composed_deleteResource h r
  · exact .report_pure _ trivial

omit h in
theorem composed_upgradedValue (schema : PlainSchema) (answer : Resource.Upgraded) :
    Composed C provider typeName (fun _ => True)
      (upgradedValue schema answer : Rpc σ δ Value) := by
  unfold upgradedValue
  split
  · split
    · exact .pure trivial
    · exact .report_pure _ trivial
  · exact (Composed.report_pure _ trivial).ite (.pure trivial)

omit h in
theorem composed_passThrough (schema : PlainSchema) (stored : Json) :
    Composed C provider typeName (fun _ => True) (passThrough schema stored : Rpc σ δ Value) := by
  unfold passThrough
  split
  · exact .pure trivial
  · exact .report_pure _ trivial

omit h in
theorem composed_runUpgrader (schema : PlainSchema) {upgrader : Resource.StateUpgrader σ}
    (hupgrader : ∀ r, C.Keeps (upgrader.upgrade r) (·.diagnostics)) (stored : Json) :
    Composed C provider typeName (fun _ => True)
      (runUpgrader schema upgrader stored : Rpc σ δ Value) := by
  unfold runUpgrader
  split
  · exact .report_pure _ trivial
  · exact Composed.call_andThen rfl (hupgrader _) fun answer =>
      .unless_failed trivial (composed_upgradedValue schema answer)

theorem composed_upgradeResource (r : UpgradeRequest) :
    Composed C provider typeName (fun _ => True) (upgradeResource r : Rpc σ δ Value) := by
  unfold upgradeResource
  cases r.stored with
  | none => exact .pure trivial
  | some stored =>
    have hs : resourceSlot.KeepsTypes C provider typeName (Resource.Actions.Keeps C) :=
      keepsTypes_resourceSlot h
    refine (hs.composed_resolve _).bind_option (.pure trivial) fun found hfound => ?_
    refine (composed_passThrough _ stored).ite ?_
    refine (hs.composed_instantiate hfound.1 _ _).bind fun actions hactions => ?_
    refine .unless_failed trivial ?_
    have hwithin := hactions.within found.1.capabilities
    cases hlist : (actions.within found.1.capabilities).upgraders with
    | none => exact .report_pure _ trivial
    | some list =>
      obtain ⟨hsilent, hupgraders⟩ := hwithin.upgraders list hlist
      refine (Composed.act (Q := fun upgraders => ∀ e ∈ upgraders, ∀ r,
        C.Keeps (e.2.upgrade r) (·.diagnostics)) hsilent hupgraders).bind
          fun upgraders hupgraders => ?_
      cases hlookup : upgraders.lookup r.version with
      | none => exact .report_pure _ trivial
      | some upgrader =>
        have hlisted : (r.version, upgrader) ∈ upgraders := by
          obtain ⟨before, after, rfl, -⟩ := List.lookup_eq_some_iff.mp hlookup
          exact List.mem_append_right _ List.mem_cons_self
        exact composed_runUpgrader _ (hupgraders _ hlisted) stored

/-! ## Ephemeral resources, functions and state stores -/

theorem composed_openEphemeral (r : OpenRequest) :
    Composed C provider typeName (fun _ => True) (openEphemeral r : Rpc σ δ OpenResult) := by
  unfold openEphemeral
  refine (composed_freshEphemeral h _).bind_option (.pure trivial) fun ready hready => ?_
  refine .unless_failed trivial ((composed_providerDeferral _).andThen fun deferral => ?_)
  cases deferral with
  | some deferral =>
    refine (composed_putOff _).andThen fun found => ?_
    cases found with
    | none => exact .pure trivial
    | some state => exact .pure trivial
  | none =>
    refine Composed.call_andThen rfl (hready.1.openResource _) fun answer => ?_
    refine (composed_checkDeferral _ _ _).andThen fun _ => .unless_failed trivial ?_
    exact (composed_encodePrivate _).andThen fun _ => .pure trivial

theorem composed_heldEphemeral (r : OpenedRequest) :
    Composed C provider typeName (fun held => ∀ a, held = some a → a.1.Keeps C)
      (heldEphemeral r : Rpc σ δ (Option (EphemeralResource.Actions σ × PrivateState))) := by
  have hnone : ∀ a, (none : Option (EphemeralResource.Actions σ × PrivateState)) = some a →
      a.1.Keeps C := fun _ ha => by cases ha
  refine (composed_freshEphemeral h _).bind_option (.pure hnone) fun ready hready => ?_
  refine (composed_decodePrivate _).andThen fun _ => .unless_failed hnone (.pure ?_)
  rintro _ ⟨⟩
  exact hready.1

theorem composed_renewEphemeral (r : OpenedRequest) :
    Composed C provider typeName (fun _ => True) (renewEphemeral r : Rpc σ δ RenewResult) := by
  refine (composed_heldEphemeral h r).bind_option (.pure trivial) fun held hheld => ?_
  dsimp only
  cases hrenew : held.1.renew with
  | none => exact .report_pure _ trivial
  | some renew =>
    exact Composed.call_andThen rfl (hheld.renew _ hrenew _) fun _ =>
      (composed_encodePrivate _).andThen fun _ => .pure trivial

theorem composed_closeEphemeral (r : OpenedRequest) :
    Composed C provider typeName (fun _ => True) (closeEphemeral r : Rpc σ δ Unit) := by
  refine (composed_heldEphemeral h r).bind_option (.pure trivial) fun held hheld => ?_
  dsimp only
  cases hclose : held.1.close with
  | none => exact .report _
  | some close =>
    exact Composed.call_andThen rfl (hheld.close _ hclose _) fun _ => .pure trivial

theorem composed_callFunction (r : CallRequest) :
    Composed C provider typeName (fun _ => True) (callFunction r : Rpc σ δ CallResult) := by
  refine (Composed.resolve lawful_functionSlot (keeps_functionSource h) _).bind
    fun found hfound => ?_
  cases found with
  | none =>
    refine .ask (fun f g _ herrors => ?_) fun _ _ => .pure trivial
    rw [FuncError.ofDiagnostics, herrors]
    rfl
  | some found =>
    dsimp only
    have hfactory := (keeps_functionSource h).factory (hfound _ _ rfl).declared
    cases found.2.arguments r.arguments with
    | error e => exact .pure trivial
    | ok arguments =>
      refine (Composed.act hfactory.make hfactory.made).bind fun function hfunction => ?_
      refine Composed.call_andThen rfl (hfunction.run arguments) fun outcome => ?_
      cases outcome.error with
      | none => exact .pure trivial
      | some e => exact .pure trivial

/-- Every operation on a state store but setting it up is one call on a fresh instance. -/
theorem composed_storeActions_bind (name : String)
    {next : Option (StateStore.Actions σ δ) → Rpc σ δ α}
    (hnone : Composed C provider typeName (fun _ => True) (next none))
    (hsome : ∀ actions, actions.Keeps C →
      Composed C provider typeName (fun _ => True) (next (some actions))) :
    Composed C provider typeName (fun _ => True) (storeActions name >>= next) := by
  have hempty : ∀ a, (none : Option (StateStore.Actions σ δ)) = some a → a.Keeps C :=
    fun _ ha => by cases ha
  refine Composed.bind_option (Q := fun actions => actions.Keeps C) ?_ hnone hsome
  refine (composed_freshStore h _).bind_option (.pure hempty) fun ready hready => ?_
  refine .unless_failed hempty (.pure ?_)
  rintro _ ⟨⟩
  exact hready.1

theorem composed_getStates (name : String) :
    Composed C provider typeName (fun _ => True) (getStates name : Rpc σ δ (List String)) :=
  composed_storeActions_bind h name (.pure trivial) fun _ ha =>
    Composed.call_andThen rfl ha.getStates fun _ => .pure trivial

theorem composed_readState (name stateId : String) :
    Composed C provider typeName (fun _ => True) (readState name stateId : Rpc σ δ Bytes) :=
  composed_storeActions_bind h name (.pure trivial) fun _ ha =>
    Composed.call_andThen rfl (ha.read stateId) fun _ => .pure trivial

theorem composed_writeState (name stateId : String) (document : Bytes) :
    Composed C provider typeName (fun _ => True)
      (writeState name stateId document : Rpc σ δ Unit) :=
  composed_storeActions_bind h name (.pure trivial) fun _ ha =>
    Composed.call_andThen rfl (ha.write stateId document) fun _ => .pure trivial

theorem composed_lockState (name stateId operation : String) :
    Composed C provider typeName (fun _ => True)
      (lockState name stateId operation : Rpc σ δ String) :=
  composed_storeActions_bind h name (.pure trivial) fun _ ha =>
    Composed.call_andThen rfl (ha.lock stateId operation) fun _ => .pure trivial

theorem composed_unlockState (name stateId lockId : String) :
    Composed C provider typeName (fun _ => True)
      (unlockState name stateId lockId : Rpc σ δ Unit) :=
  composed_storeActions_bind h name (.pure trivial) fun _ ha =>
    Composed.call_andThen rfl (ha.unlock stateId lockId) fun _ => .pure trivial

theorem composed_deleteState (name stateId : String) :
    Composed C provider typeName (fun _ => True) (deleteState name stateId : Rpc σ δ Unit) :=
  composed_storeActions_bind h name (.pure trivial) fun _ ha =>
    Composed.call_andThen rfl (ha.deleteState stateId) fun _ => .pure trivial

/-! ## Configuring -/

theorem composed_configureProvider (r : ConfigureProviderRequest) :
    Composed C provider typeName (fun _ => True) (configureProvider r : Rpc σ δ Unit) := by
  refine (Composed.providerSchema h.declare).andThen fun schema => ?_
  cases schema with
  | none => exact .pure trivial
  | some schema =>
    refine .ask (fun f g hagrees _ => by rw [hagrees.provider]) fun f hprovider => ?_
    rw [hprovider]
    refine Composed.call_andThen rfl (h.configure _) fun answer => ?_
    exact (Composed.report _).ite (.share answer.1)

theorem composed_configureStore (r : ConfigureStoreRequest) :
    Composed C provider typeName (fun _ => True) (configureStore r : Rpc σ δ Unit) := by
  refine ((keepsTypes_stateStoreSlot h).composed_resolve _).bind_option (.pure trivial)
    fun found hfound => ?_
  refine (Composed.act hfound.1.make hfound.1.made).bind fun fresh hfresh => ?_
  refine .ask (fun f g hagrees _ => by dsimp only; rw [hagrees.shared]) fun f _ => ?_
  refine Composed.call_andThen rfl (hfresh.actions.setUp _) fun answer => ?_
  exact .unless_failed trivial (.store answer.1)

/-! ## Any request -/

/-- Whatever the request is. -/
theorem composed_serving (request : Request) :
    Composed C provider typeName (fun _ => True) (serving request : Rpc σ δ Result) := by
  have hmap {ρ : Type} {rpc : Rpc σ δ ρ} (hrpc : Composed C provider typeName (fun _ => True) rpc)
      (give : ρ → Result) : Composed C provider typeName (fun _ => True) (give <$> rpc) :=
    hrpc.andThen fun _ => .pure trivial
  cases request with
  | getMetadata => exact hmap (composed_getMetadata h) _
  | getProviderSchema => exact hmap (composed_getProviderSchema h) _
  | validateProvider config => exact hmap (composed_validateProvider h config) _
  | configureProvider r => exact hmap (composed_configureProvider h r) _
  | validateResource r => exact hmap (composed_validateResource h r) _
  | readResource r => exact hmap (composed_readResource h r) _
  | planResource r => exact hmap (composed_planResource h r) _
  | applyResource r => exact hmap (composed_applyResource h r) _
  | createResource r => exact hmap (composed_createResource h r) _
  | updateResource r => exact hmap (composed_updateResource h r) _
  | deleteResource r => exact hmap (composed_deleteResource h r) _
  | upgradeResource r => exact hmap (composed_upgradeResource h r) _
  | importResource r => exact hmap (composed_importResource h r) _
  | validateDataSource r => exact hmap (composed_validateDataSource h r) _
  | readDataSource r => exact hmap (composed_readDataSource h r) _
  | validateEphemeral r => exact hmap (composed_validateEphemeral h r) _
  | openEphemeral r => exact hmap (composed_openEphemeral h r) _
  | renewEphemeral r => exact hmap (composed_renewEphemeral h r) _
  | closeEphemeral r => exact hmap (composed_closeEphemeral h r) _
  | getFunctions => exact hmap (composed_getFunctions h) _
  | callFunction r => exact hmap (composed_callFunction h r) _
  | validateStore r => exact hmap (composed_validateStore h r) _
  | configureStore r => exact hmap (composed_configureStore h r) _
  | getStates name => exact hmap (composed_getStates h name) _
  | readState name stateId => exact hmap (composed_readState h name stateId) _
  | writeState name stateId document => exact hmap (composed_writeState h name stateId document) _
  | lockState name stateId operation => exact hmap (composed_lockState h name stateId operation) _
  | unlockState name stateId lockId => exact hmap (composed_unlockState h name stateId lockId) _
  | deleteState name stateId => exact hmap (composed_deleteState h name stateId) _

end

/-! ## After any run -/

/-- What a server knows stays well founded, whatever it serves. -/
theorem Frame.Grounded.serving {f : Frame σ δ} (hf : f.Grounded provider typeName)
    (request : Request) : (Server.serving request f).2.Grounded provider typeName :=
  ((composed_serving provider.keeps_any request).grounded hf).1

theorem grounded_start (provider : Provider σ δ) (options : ServerOptions) (world : σ) :
    let started := Server.start provider options world
    (Frame.opening started.1 started.2).Grounded provider started.1.typeName where
  provider := rfl
  typeName := rfl
  grounded := {
    resources := Shelf.grounded_empty _
    dataSources := Shelf.grounded_empty _
    ephemeralResources := Shelf.grounded_empty _
    functions := Shelf.grounded_empty _
    stateStores := Shelf.grounded_empty _
    providerSchema := fun _ h => by cases h }

theorem grounded_afterRun (provider : Provider σ δ) (options : ServerOptions) (world : σ)
    (past : List Request) :
    let started := Server.start provider options world
    (afterRun started.1 started.2 past).Grounded provider started.1.typeName := by
  intro started
  induction past using List.reverseRecOn with
  | nil => exact grounded_start provider options world
  | append_singleton past request ih =>
    rw [afterRun_snoc]
    exact (ih.serving request).of_server rfl

end ProviderKit.Server
