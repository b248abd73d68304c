import ProviderKit.Proofs.Server.Asides
import ProviderKit.Proofs.Server.Heeding
import ProviderKit.Proofs.Server.Retention
import ProviderKit.Server.Serve

-- When the provider is asked to carry something out. Whatever a server is asked, it asks for one
-- operation at most, and only while nothing that was reported is an error.

namespace ProviderKit.Server

variable {σ δ α γ ι κ η : Type}

/-! ## Describing, checking and configuring -/

theorem adds_getMetadata : Rpc.Adds Callback.IsAside (getMetadata : Rpc σ δ MetadataResult) :=
  Rpc.adds_get.bind fun _ => (Rpc.adds_listNames _).bind fun _ => (Rpc.adds_listNames _).bind
    fun _ => (Rpc.adds_listNames _).bind fun _ => (Rpc.adds_listNames _).bind fun _ =>
      (Rpc.adds_listNames _).bind fun _ => Rpc.adds_pure _

theorem adds_getProviderSchema :
    Rpc.Adds Callback.IsAside (getProviderSchema : Rpc σ δ SchemasResult) :=
  Rpc.adds_get.bind fun _ => Rpc.adds_providerSchema.bind fun _ => (Rpc.adds_describeAll _).bind
    fun _ => (Rpc.adds_describeAll _).bind fun _ => (Rpc.adds_describeAll _).bind fun _ =>
      (Rpc.adds_describeAll _).bind fun _ => (Rpc.adds_describeAll _).bind fun _ => Rpc.adds_pure _

theorem adds_validateProvider (config : Option Value) :
    Rpc.Adds Callback.IsAside (validateProvider config : Rpc σ δ Unit) := by
  refine Rpc.adds_providerSchema.bind fun schema => ?_
  split
  · exact Rpc.adds_pure _
  · exact Rpc.adds_get.bind fun _ => adds_checkConfig _ _ _

/-- How checking a configuration goes on once there is an instance. -/
theorem adds_check_rest (schema : PlainSchema) (config : Option Value)
    (check : Option (ConfigCheck σ)) :
    Rpc.Adds Callback.IsAside
      (do
        if ← Rpc.failed then return
        let some raw := config | return
        checkConfig schema raw check : Rpc σ δ Unit) := by
  refine Rpc.adds_failed.bind fun _ => (Rpc.adds_pure _).ite ?_
  cases config with
  | none => exact Rpc.adds_pure _
  | some raw => exact adds_checkConfig _ _ _

theorem adds_validateResource (r : ValidateRequest) :
    Rpc.Adds Callback.IsAside (validateResource r : Rpc σ δ Unit) := by
  refine (Rpc.adds_fresh resourceSlot _ _ r.typeName).bind fun ready => ?_
  cases ready with
  | none => exact Rpc.adds_pure _
  | some ready => exact adds_check_rest _ _ _

theorem adds_validateDataSource (r : ValidateRequest) :
    Rpc.Adds Callback.IsAside (validateDataSource r : Rpc σ δ Unit) := by
  refine (Rpc.adds_fresh dataSourceSlot _ _ r.typeName).bind fun ready => ?_
  cases ready with
  | none => exact Rpc.adds_pure _
  | some ready => exact adds_check_rest _ _ _

theorem adds_validateEphemeral (r : ValidateRequest) :
    Rpc.Adds Callback.IsAside (validateEphemeral r : Rpc σ δ Unit) := by
  refine (Rpc.adds_fresh ephemeralSlot _ _ r.typeName).bind fun ready => ?_
  cases ready with
  | none => exact Rpc.adds_pure _
  | some ready => exact adds_check_rest _ _ _

theorem adds_validateStore (r : ValidateRequest) :
    Rpc.Adds Callback.IsAside (validateStore r : Rpc σ δ Unit) := by
  refine (Rpc.adds_resolve stateStoreSlot r.typeName).bind fun found => ?_
  split
  · split
    · refine (Rpc.adds_report _).bind fun _ => Rpc.Adds.ite ?_ (Rpc.adds_pure _)
      exact (Rpc.adds_act _).bind fun _ => adds_checkFurther _ _
    · exact Rpc.adds_pure _
  · exact Rpc.adds_pure _

theorem adds_configureProvider (r : ConfigureProviderRequest) :
    Rpc.Adds Callback.IsAside (configureProvider r : Rpc σ δ Unit) := by
  refine Rpc.adds_providerSchema.bind fun schema => ?_
  split
  · exact Rpc.adds_pure _
  · refine Rpc.adds_get.bind fun _ => Rpc.Adds.bind (Rpc.adds_call ?_ _ _) fun answer => ?_
    · rfl
    · exact (Rpc.adds_report _).ite (Rpc.adds_remember _)

/-! ## Managed resources -/

theorem heeds_readResource (r : ReadRequest) : Rpc.Heeds (readResource r : Rpc σ δ ReadResult) := by
  unfold readResource
  cases r.currentState with
  | none => exact ((Rpc.adds_report _).bind fun _ => Rpc.adds_pure _).heeds
  | some current =>
    refine (Rpc.adds_fresh resourceSlot _ _ r.typeName).bind_heeds fun ready => ?_
    cases ready with
    | none => exact (Rpc.adds_pure _).heeds
    | some ready =>
      refine (Rpc.adds_decodePrivate _).bind_heeds fun prior => ?_
      refine Rpc.heeds_failed_bind (Rpc.adds_pure _) ?_
      refine (silent_providerDeferral _).bind_heedsUnfailed fun deferral => ?_
      cases deferral with
      | some deferral => exact (Rpc.adds_pure _).heeds.unfailed
      | none =>
        refine (Rpc.silent_providerMeta _).bind_heedsUnfailed fun providerMeta => ?_
        refine (Rpc.heedsUnfailed_call _ _ _).bind_adds fun answer => ?_
        exact (refreshed_rest r ready.2 current prior answer).2

/-- Whatever the resource says about the whole plan, it says it once. -/
theorem heedsUnfailed_modifyWhole (actions : Resource.Actions σ) (c : Change) (p : Planned) :
    Rpc.HeedsUnfailed (modifyWhole actions c p : Rpc σ δ Planned) := by
  unfold modifyWhole
  split
  · exact (Rpc.adds_pure _).heeds.unfailed
  · refine (Rpc.heedsUnfailed_call _ _ _).bind_adds fun answer => ?_
    exact (adds_checkDeferral _ _ _).bind fun _ => Rpc.adds_pure _

/-- The modifiers of the attributes run before the resource does, so it heeds their errors. -/
theorem heeds_planStages (actions : Resource.Actions σ) (schema : ActiveSchema σ) (c : Change)
    (prior : PrivateState) : Rpc.Heeds (planStages actions schema c prior : Rpc σ δ Planned) := by
  unfold planStages
  dsimp only
  refine (Rpc.adds_report _).bind_heeds fun _ => ?_
  split
  · exact (Rpc.adds_pure _).heeds
  · refine (silent_providerDeferral _).adds.bind_heeds fun deferral => ?_
    cases deferral with
    | some deferral => exact (Rpc.adds_pure _).heeds
    | none =>
      refine (adds_modifyAttributes schema c _).bind_heeds fun p => ?_
      refine Rpc.heeds_failed_bind (Rpc.adds_pure _) ?_
      exact (heedsUnfailed_modifyWhole actions c p).bind_adds fun p => adds_checkedPlan c p

theorem heeds_planResource (r : PlanRequest) :
    Rpc.Heeds (planResource r : Rpc σ δ PlanResult) := by
  refine (Rpc.adds_fresh resourceSlot _ _ r.typeName).bind_heeds fun ready => ?_
  cases ready with
  | none => exact (Rpc.adds_pure _).heeds
  | some ready =>
    refine Rpc.adds_failed.bind_heeds fun _ => ?_
    split
    · exact (Rpc.adds_pure _).heeds
    · refine (Rpc.adds_decodePrivate _).bind_heeds fun prior => ?_
      refine Rpc.adds_failed.bind_heeds fun _ => ?_
      split
      · exact (Rpc.adds_pure _).heeds
      · refine (adds_requestedChange _ r).bind_heeds fun change => ?_
        cases change with
        | none => exact (Rpc.adds_pure _).heeds
        | some c =>
          refine (heeds_planStages _ _ c prior).bind_adds fun p => ?_
          exact (Rpc.adds_threadPrivate _ _ _).bind fun _ => Rpc.adds_pure _

theorem ready_prepare (r : ApplyRequest) :
    Rpc.Ready (prepare r : Rpc σ δ (Option (Prepared σ))) :=
  fun _ _ hp => (freshResource_of_prepare hp).2.1

theorem heeds_createResource (r : ApplyRequest) :
    Rpc.Heeds (createResource r : Rpc σ δ ApplyResult) := by
  refine (ready_prepare r).bind_heeds (adds_prepare r) (Rpc.adds_pure _) fun p => ?_
  refine (Rpc.silent_providerMeta _).bind_heedsUnfailed fun providerMeta => ?_
  exact (Rpc.heedsUnfailed_call _ _ _).bind_adds fun answer => adds_conclude p _ _ answer

theorem heeds_updateResource (r : ApplyRequest) :
    Rpc.Heeds (updateResource r : Rpc σ δ ApplyResult) := by
  refine (ready_prepare r).bind_heeds (adds_prepare r) (Rpc.adds_pure _) fun p => ?_
  refine (Rpc.silent_providerMeta _).bind_heedsUnfailed fun providerMeta => ?_
  exact (Rpc.heedsUnfailed_call _ _ _).bind_adds fun answer => adds_conclude p _ _ answer

theorem heeds_deleteResource (r : ApplyRequest) :
    Rpc.Heeds (deleteResource r : Rpc σ δ ApplyResult) := by
  refine (ready_prepare r).bind_heeds (adds_prepare r) (Rpc.adds_pure _) fun p => ?_
  refine (Rpc.silent_providerMeta _).bind_heedsUnfailed fun providerMeta => ?_
  refine (Rpc.heedsUnfailed_call _ _ _).bind_adds fun answer => ?_
  exact Rpc.adds_failed.bind fun _ => (Rpc.adds_encodePrivate _).bind fun _ => Rpc.adds_pure _

theorem heeds_applyResource (r : ApplyRequest) :
    Rpc.Heeds (applyResource r : Rpc σ δ ApplyResult) := by
  unfold applyResource
  split
  · exact heeds_createResource r
  · exact heeds_updateResource r
  · exact heeds_deleteResource r
  · exact ((Rpc.adds_report _).bind fun _ => Rpc.adds_pure _).heeds

theorem heeds_runUpgrader (schema : PlainSchema) (upgrader : Resource.StateUpgrader σ)
    (stored : Json) : Rpc.HeedsUnfailed (runUpgrader schema upgrader stored : Rpc σ δ Value) := by
  unfold runUpgrader
  split
  · exact ((Rpc.adds_report _).bind fun _ => Rpc.adds_pure _).heeds.unfailed
  · refine (Rpc.heedsUnfailed_call _ _ _).bind_adds fun answer => ?_
    exact Rpc.adds_failed.bind fun _ => (Rpc.adds_pure _).ite (adds_upgradedValue schema answer)

theorem heeds_upgradeResource (r : UpgradeRequest) :
    Rpc.Heeds (upgradeResource r : Rpc σ δ Value) := by
  unfold upgradeResource
  cases r.stored with
  | none => exact (Rpc.adds_pure _).heeds
  | some stored =>
    refine (Rpc.adds_resolve resourceSlot r.typeName).bind_heeds fun found => ?_
    cases found with
    | none => exact (Rpc.adds_pure _).heeds
    | some found =>
      dsimp only
      split
      · exact (adds_passThrough _ stored).heeds
      · refine (Rpc.adds_instantiate _ _ _ _).bind_heeds fun actions => ?_
        refine Rpc.heeds_failed_bind (Rpc.adds_pure _) ?_
        rw [if_neg Bool.false_ne_true]
        split
        · refine (Rpc.silent_act _).bind_heedsUnfailed fun upgraders => ?_
          split
          · exact heeds_runUpgrader _ _ stored
          · exact ((Rpc.adds_report _).bind fun _ => Rpc.adds_pure _).heeds.unfailed
        · exact ((Rpc.adds_report _).bind fun _ => Rpc.adds_pure _).heeds.unfailed

theorem heeds_importResource (r : ImportRequest) :
    Rpc.Heeds (importResource r : Rpc σ δ ImportResult) := by
  refine (Rpc.adds_fresh resourceSlot _ _ r.typeName).bind_heeds fun ready => ?_
  cases ready with
  | none => exact (Rpc.adds_pure _).heeds
  | some ready =>
    refine Rpc.heeds_failed_bind (Rpc.adds_pure _) ?_
    refine (silent_providerDeferral _).bind_heedsUnfailed fun deferral => ?_
    cases deferral with
    | some deferral => exact (Rpc.adds_pure _).heeds.unfailed
    | none =>
      dsimp only
      split
      · refine (Rpc.heedsUnfailed_call _ _ _).bind_adds fun answer => ?_
        exact (adds_checkDeferral _ _ _).bind fun _ => adds_imported r.typeName answer
      · exact ((Rpc.adds_report _).bind fun _ => Rpc.adds_pure _).heeds.unfailed

/-! ## Data sources and ephemeral resources -/

theorem heeds_readDataSource (r : ReadDataRequest) :
    Rpc.Heeds (readDataSource r : Rpc σ δ DataResult) := by
  refine (Rpc.adds_fresh dataSourceSlot _ _ r.typeName).bind_heeds fun ready => ?_
  cases ready with
  | none => exact (Rpc.adds_pure _).heeds
  | some ready =>
    refine Rpc.heeds_failed_bind (Rpc.adds_pure _) ?_
    refine (silent_providerDeferral _).bind_heedsUnfailed fun deferral => ?_
    cases deferral with
    | some deferral =>
      exact (adds_putOff_bind _ _ fun v => DataResult.mk v (some deferral)).heeds.unfailed
    | none =>
      refine (Rpc.silent_providerMeta _).bind_heedsUnfailed fun providerMeta => ?_
      refine (Rpc.heedsUnfailed_call _ _ _).bind_adds fun answer => ?_
      refine (adds_checkDeferral _ _ _).bind fun _ => ?_
      exact Rpc.adds_reconcile_unless_failed ready.2 (r.config.getD .null) answer.state.raw
        fun state => DataResult.mk state answer.deferred

theorem heeds_openEphemeral (r : OpenRequest) :
    Rpc.Heeds (openEphemeral r : Rpc σ δ OpenResult) := by
  refine (Rpc.adds_fresh ephemeralSlot _ _ r.typeName).bind_heeds fun ready => ?_
  cases ready with
  | none => exact (Rpc.adds_pure _).heeds
  | some ready =>
    refine Rpc.heeds_failed_bind (Rpc.adds_pure _) ?_
    refine (silent_providerDeferral _).bind_heedsUnfailed fun deferral => ?_
    cases deferral with
    | some deferral =>
      exact (adds_putOff_bind _ _ fun v => OpenResult.mk v [] none (some deferral)).heeds.unfailed
    | none =>
      refine (Rpc.heedsUnfailed_call _ _ _).bind_adds fun answer => ?_
      refine (adds_checkDeferral _ _ _).bind fun _ => Rpc.adds_failed.bind fun _ => ?_
      refine (Rpc.adds_pure _).ite ((Rpc.adds_encodePrivate _).bind fun _ => Rpc.adds_pure _)

theorem adds_heldEphemeral (r : OpenedRequest) : Rpc.Adds Callback.IsAside
    (heldEphemeral r : Rpc σ δ (Option (EphemeralResource.Actions σ × PrivateState))) := by
  refine (Rpc.adds_fresh ephemeralSlot _ _ r.typeName).bind fun ready => ?_
  cases ready with
  | none => exact Rpc.adds_pure _
  | some ready =>
    exact (Rpc.adds_decodePrivate _).bind fun _ => Rpc.adds_failed.bind fun _ =>
      (Rpc.adds_pure _).ite (Rpc.adds_pure _)

theorem ready_heldEphemeral (r : OpenedRequest) : Rpc.Ready
    (heldEphemeral r : Rpc σ δ (Option (EphemeralResource.Actions σ × PrivateState))) := by
  refine Rpc.ready_bind fun ready => ?_
  cases ready with
  | none => exact Rpc.ready_none
  | some ready => exact Rpc.ready_bind fun _ => Rpc.ready_unless_failed _

theorem heeds_renewEphemeral (r : OpenedRequest) :
    Rpc.Heeds (renewEphemeral r : Rpc σ δ RenewResult) := by
  refine (ready_heldEphemeral r).bind_heeds (adds_heldEphemeral r) (Rpc.adds_pure _) fun held => ?_
  dsimp only
  split
  · refine (Rpc.heedsUnfailed_call _ _ _).bind_adds fun answer => ?_
    exact (Rpc.adds_encodePrivate _).bind fun _ => Rpc.adds_pure _
  · exact ((Rpc.adds_report _).bind fun _ => Rpc.adds_pure _).heeds.unfailed

theorem heeds_closeEphemeral (r : OpenedRequest) :
    Rpc.Heeds (closeEphemeral r : Rpc σ δ Unit) := by
  refine (ready_heldEphemeral r).bind_heeds (adds_heldEphemeral r) (Rpc.adds_pure _) fun held => ?_
  dsimp only
  split
  · exact (Rpc.heedsUnfailed_call _ _ _).bind_adds fun _ => Rpc.adds_pure _
  · exact (Rpc.adds_report _).heeds.unfailed

/-! ## Functions and state stores -/

theorem heedsUnfailed_callFunction (r : CallRequest) :
    Rpc.HeedsUnfailed (callFunction r : Rpc σ δ CallResult) := by
  refine Rpc.heedsUnfailed_resolve_bind functionSlot r.name
    (Rpc.adds_get.bind fun _ => Rpc.adds_pure _) fun entry definition => ?_
  dsimp only
  split
  · exact (Rpc.adds_pure _).heeds.unfailed
  · refine (Rpc.silent_act _).bind_heedsUnfailed fun function => ?_
    refine (Rpc.heedsUnfailed_call _ _ _).bind_adds fun outcome => ?_
    split
    · exact Rpc.adds_pure _
    · exact Rpc.adds_pure _

theorem heedsUnfailed_configureStore (r : ConfigureStoreRequest) :
    Rpc.HeedsUnfailed (configureStore r : Rpc σ δ Unit) := by
  refine Rpc.heedsUnfailed_resolve_bind stateStoreSlot r.typeName (Rpc.adds_pure _)
    fun entry schema => ?_
  refine (Rpc.silent_act _).bind_heedsUnfailed fun fresh => ?_
  refine Rpc.silent_get.bind_heedsUnfailed fun f => ?_
  refine (Rpc.heedsUnfailed_call _ _ _).bind_adds fun answer => ?_
  exact Rpc.adds_failed.bind fun _ => (Rpc.adds_pure _).ite (Rpc.adds_remember _)

/-- Every operation on a state store but setting it up is one call on a fresh instance. -/
theorem heeds_storeActions_bind (typeName : String)
    {next : Option (StateStore.Actions σ δ) → Rpc σ δ γ}
    (hnone : Rpc.Adds Callback.IsAside (next none))
    (hsome : ∀ actions, Rpc.HeedsUnfailed (next (some actions))) :
    Rpc.Heeds (storeActions typeName >>= next) := by
  refine Rpc.Ready.bind_heeds ?_ ?_ hnone hsome
  · refine Rpc.ready_bind fun ready => ?_
    cases ready with
    | none => exact Rpc.ready_none
    | some ready => exact Rpc.ready_unless_failed _
  · refine (Rpc.adds_fresh stateStoreSlot _ _ typeName).bind fun ready => ?_
    cases ready with
    | none => exact Rpc.adds_pure _
    | some ready =>
      exact Rpc.adds_failed.bind fun _ => (Rpc.adds_pure _).ite (Rpc.adds_pure _)

theorem heeds_getStates (typeName : String) :
    Rpc.Heeds (getStates typeName : Rpc σ δ (List String)) :=
  heeds_storeActions_bind typeName (Rpc.adds_pure _) fun _ =>
    (Rpc.heedsUnfailed_call _ _ _).bind_adds fun _ => Rpc.adds_pure _

theorem heeds_readState (typeName stateId : String) :
    Rpc.Heeds (readState typeName stateId : Rpc σ δ Bytes) :=
  heeds_storeActions_bind typeName (Rpc.adds_pure _) fun _ =>
    (Rpc.heedsUnfailed_call _ _ _).bind_adds fun _ => Rpc.adds_pure _

theorem heeds_writeState (typeName stateId : String) (document : Bytes) :
    Rpc.Heeds (writeState typeName stateId document : Rpc σ δ Unit) :=
  heeds_storeActions_bind typeName (Rpc.adds_pure _) fun _ =>
    (Rpc.heedsUnfailed_call _ _ _).bind_adds fun _ => Rpc.adds_pure _

theorem heeds_lockState (typeName stateId operation : String) :
    Rpc.Heeds (lockState typeName stateId operation : Rpc σ δ String) :=
  heeds_storeActions_bind typeName (Rpc.adds_pure _) fun _ =>
    (Rpc.heedsUnfailed_call _ _ _).bind_adds fun _ => Rpc.adds_pure _

theorem heeds_unlockState (typeName stateId lockId : String) :
    Rpc.Heeds (unlockState typeName stateId lockId : Rpc σ δ Unit) :=
  heeds_storeActions_bind typeName (Rpc.adds_pure _) fun _ =>
    (Rpc.heedsUnfailed_call _ _ _).bind_adds fun _ => Rpc.adds_pure _

theorem heeds_deleteState (typeName stateId : String) :
    Rpc.Heeds (deleteState typeName stateId : Rpc σ δ Unit) :=
  heeds_storeActions_bind typeName (Rpc.adds_pure _) fun _ =>
    (Rpc.heedsUnfailed_call _ _ _).bind_adds fun _ => Rpc.adds_pure _

/-! ## Any request -/

theorem Rpc.HeedsUnfailed.map {rpc : Rpc σ δ α} (h : HeedsUnfailed rpc) (give : α → γ) :
    HeedsUnfailed (give <$> rpc) := fun f hf => h f hf

theorem heedsUnfailed_serving (request : Request) :
    Rpc.HeedsUnfailed (serving request : Rpc σ δ Result) := by
  cases request with
  | getMetadata => exact adds_getMetadata.heeds.unfailed.map _
  | getProviderSchema => exact adds_getProviderSchema.heeds.unfailed.map _
  | validateProvider config => exact (adds_validateProvider config).heeds.unfailed.map _
  | configureProvider r => exact (adds_configureProvider r).heeds.unfailed.map _
  | validateResource r => exact (adds_validateResource r).heeds.unfailed.map _
  | readResource r => exact (heeds_readResource r).unfailed.map _
  | planResource r => exact (heeds_planResource r).unfailed.map _
  | applyResource r => exact (heeds_applyResource r).unfailed.map _
  | createResource r => exact (heeds_createResource r).unfailed.map _
  | updateResource r => exact (heeds_updateResource r).unfailed.map _
  | deleteResource r => exact (heeds_deleteResource r).unfailed.map _
  | upgradeResource r => exact (heeds_upgradeResource r).unfailed.map _
  | importResource r => exact (heeds_importResource r).unfailed.map _
  | validateDataSource r => exact (adds_validateDataSource r).heeds.unfailed.map _
  | readDataSource r => exact (heeds_readDataSource r).unfailed.map _
  | validateEphemeral r => exact (adds_validateEphemeral r).heeds.unfailed.map _
  | openEphemeral r => exact (heeds_openEphemeral r).unfailed.map _
  | renewEphemeral r => exact (heeds_renewEphemeral r).unfailed.map _
  | closeEphemeral r => exact (heeds_closeEphemeral r).unfailed.map _
  | getFunctions => exact (Rpc.adds_describeAll functionSlot).heeds.unfailed.map _
  | callFunction r => exact (heedsUnfailed_callFunction r).map _
  | validateStore r => exact (adds_validateStore r).heeds.unfailed.map _
  | configureStore r => exact (heedsUnfailed_configureStore r).map _
  | getStates typeName => exact (heeds_getStates typeName).unfailed.map _
  | readState typeName stateId => exact (heeds_readState typeName stateId).unfailed.map _
  | writeState typeName stateId document =>
    exact (heeds_writeState typeName stateId document).unfailed.map _
  | lockState typeName stateId operation =>
    exact (heeds_lockState typeName stateId operation).unfailed.map _
  | unlockState typeName stateId lockId =>
    exact (heeds_unlockState typeName stateId lockId).unfailed.map _
  | deleteState typeName stateId => exact (heeds_deleteState typeName stateId).unfailed.map _

/-- Whatever is asked of a server, the provider's code carries out one operation at most, and
does so while no error has been reported. -/
theorem operations_heed_errors (server : Server σ δ) (world : σ) (request : Request) :
    let answer := (serve server request world).1.1
    (operations answer.calls).length ≤ 1 ∧
      ∀ c ∈ operations answer.calls, Diagnostics.hasError c.before = false := by
  intro answer
  obtain ⟨cs, hcalls, hcs⟩ :=
    (heedsUnfailed_serving request (⟨world, server, [], []⟩ : Frame σ δ) rfl).calls
  have hanswer : answer.calls = cs := hcalls.trans (List.nil_append cs)
  rw [hanswer]
  exact ⟨hcs.once, hcs.unfailed⟩

-- Applying a change asks for it once, and only to create if there was nothing before.
example :
    let r := namedChange none (some namedState)
    let answer := (serve (loneServer namedSchema) (.applyResource r) 0).1.1
    ∃ request, (operations answer.calls).map Call.callback = [.create request] := ⟨_, rfl⟩

end ProviderKit.Server
