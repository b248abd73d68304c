import ProviderKit.Proofs.Server.Asides
import ProviderKit.Proofs.Server.Moves

-- Requests as moves. All but the two that configure are served by moves alone, and those two end
-- with the server keeping what they were given. So serving hands to callbacks what the server had
-- before, and changes what it has only by what it was configured with.

namespace ProviderKit.Server

variable {σ δ α : Type}

/-! ## Steps of several requests -/

namespace Rpc

theorem moves_reconcile (schema : ActiveSchema σ) (prior proposed : Value) :
    Moves (reconcile schema prior proposed : Rpc σ δ Value) :=
  (moves_act _).bind fun _ => (moves_noteAll (fun _ _ => by trivial) _ _).bind fun _ => moves_pure _

end Rpc

theorem moves_checkFurther (config : Described) (check : Option (ConfigCheck σ)) :
    Rpc.Moves (checkFurther config check : Rpc σ δ Unit) := by
  unfold checkFurther
  split
  · exact (Rpc.moves_call (fun _ => by trivial) _ _).bind fun _ => Rpc.moves_pure _
  · exact Rpc.moves_pure _

theorem moves_checkConfig (schema : PlainSchema) (raw : Value) (check : Option (ConfigCheck σ)) :
    Rpc.Moves (checkConfig schema raw check : Rpc σ δ Unit) :=
  (Rpc.moves_report _).bind fun _ => moves_checkFurther _ _

/-! ## Describing and checking -/

theorem moves_getMetadata : Rpc.Moves (getMetadata : Rpc σ δ MetadataResult) :=
  Rpc.moves_get.bind fun _ => (Rpc.moves_listNames sound_resourceSlot).bind fun _ =>
    (Rpc.moves_listNames sound_dataSourceSlot).bind fun _ =>
      (Rpc.moves_listNames sound_ephemeralSlot).bind fun _ =>
        (Rpc.moves_listNames sound_stateStoreSlot).bind fun _ =>
          (Rpc.moves_listNames sound_functionSlot).bind fun _ => Rpc.moves_pure _

theorem moves_getProviderSchema : Rpc.Moves (getProviderSchema : Rpc σ δ SchemasResult) :=
  Rpc.moves_get.bind fun _ => Rpc.moves_providerSchema.bind fun _ =>
    (Rpc.moves_describeAll sound_resourceSlot).bind fun _ =>
      (Rpc.moves_describeAll sound_dataSourceSlot).bind fun _ =>
        (Rpc.moves_describeAll sound_ephemeralSlot).bind fun _ =>
          (Rpc.moves_describeAll sound_stateStoreSlot).bind fun _ =>
            (Rpc.moves_describeAll sound_functionSlot).bind fun _ => Rpc.moves_pure _

theorem moves_validateProvider (config : Option Value) :
    Rpc.Moves (validateProvider config : Rpc σ δ Unit) :=
  Rpc.moves_providerSchema.bind_option (Rpc.moves_pure _) fun _ =>
    Rpc.moves_get.bind fun _ => moves_checkConfig _ _ _

/-- How checking a configuration goes on once there is an instance. -/
theorem moves_check_rest (schema : PlainSchema) (config : Option Value)
    (check : Option (ConfigCheck σ)) :
    Rpc.Moves
      (do
        if ← Rpc.failed then return
        let some raw := config | return
        checkConfig schema raw check : Rpc σ δ Unit) := by
  refine Rpc.moves_unless_failed _ ?_
  cases config with
  | none => exact Rpc.moves_pure _
  | some raw => exact moves_checkConfig _ _ _

theorem moves_validateResource (r : ValidateRequest) :
    Rpc.Moves (validateResource r : Rpc σ δ Unit) :=
  (Rpc.moves_fresh sound_resourceSlot _ _ _).bind_option (Rpc.moves_pure _) fun _ =>
    moves_check_rest _ _ _

theorem moves_validateDataSource (r : ValidateRequest) :
    Rpc.Moves (validateDataSource r : Rpc σ δ Unit) :=
  (Rpc.moves_fresh sound_dataSourceSlot _ _ _).bind_option (Rpc.moves_pure _) fun _ =>
    moves_check_rest _ _ _

theorem moves_validateEphemeral (r : ValidateRequest) :
    Rpc.Moves (validateEphemeral r : Rpc σ δ Unit) :=
  (Rpc.moves_fresh sound_ephemeralSlot _ _ _).bind_option (Rpc.moves_pure _) fun _ =>
    moves_check_rest _ _ _

theorem moves_validateStore (r : ValidateRequest) :
    Rpc.Moves (validateStore r : Rpc σ δ Unit) := by
  refine (Rpc.moves_resolve sound_stateStoreSlot _).bind_option (Rpc.moves_pure _) fun found => ?_
  cases r.config with
  | none => exact Rpc.moves_pure _
  | some raw =>
    refine (Rpc.moves_report _).bind fun _ => Rpc.Moves.ite ?_ (Rpc.moves_pure _)
    exact (Rpc.moves_act _).bind fun _ => moves_checkFurther _ _

/-! ## Reading and importing -/

theorem moves_reconcile_unless_failed (schema : ActiveSchema σ) (prior proposed : Value)
    (give : Value → α) :
    Rpc.Moves
      (do
        if ← Rpc.failed then return give proposed
        return give (← Rpc.reconcile schema prior proposed) : Rpc σ δ α) :=
  Rpc.moves_unless_failed _ ((Rpc.moves_reconcile schema prior proposed).bind fun _ =>
    Rpc.moves_pure _)

theorem moves_readResource (r : ReadRequest) :
    Rpc.Moves (readResource r : Rpc σ δ ReadResult) := by
  unfold readResource
  cases r.currentState with
  | none => exact (Rpc.moves_report _).bind fun _ => Rpc.moves_pure _
  | some current =>
    refine (Rpc.moves_fresh sound_resourceSlot _ _ _).bind_option (Rpc.moves_pure _) fun ready => ?_
    refine (Rpc.onlyReports_decodePrivate _).moves.bind fun prior => Rpc.moves_unless_failed _ ?_
    refine (onlyReports_providerDeferral _).moves.bind fun deferral => ?_
    cases deferral with
    | some deferral => exact Rpc.moves_pure _
    | none =>
      refine (Rpc.onlyReports_providerMeta _).moves.bind fun _ => ?_
      refine (Rpc.moves_call (fun _ => by trivial) _ _).bind fun answer => ?_
      refine (onlyReports_checkDeferral _ _ _).moves.bind fun _ => ?_
      refine (Rpc.onlyReports_threadPrivate _ _ _).moves.bind fun privateBytes => ?_
      exact moves_reconcile_unless_failed ready.2 current answer.state.raw
        fun state => ReadResult.mk state privateBytes answer.deferred

theorem moves_importResource (r : ImportRequest) :
    Rpc.Moves (importResource r : Rpc σ δ ImportResult) := by
  unfold importResource
  refine (Rpc.moves_fresh sound_resourceSlot _ _ _).bind_option (Rpc.moves_pure _) fun ready => ?_
  refine Rpc.moves_unless_failed _ ((onlyReports_providerDeferral _).moves.bind fun deferral => ?_)
  cases deferral with
  | some deferral => exact Rpc.moves_pure _
  | none =>
    cases ready.1.importState with
    | none => exact (Rpc.moves_report _).bind fun _ => Rpc.moves_pure _
    | some importState =>
      refine (Rpc.moves_call (fun _ => by trivial) _ _).bind fun answer => ?_
      refine (onlyReports_checkDeferral _ _ _).moves.bind fun _ => Rpc.moves_unless_failed _ ?_
      cases answer.deferred with
      | some deferral => exact Rpc.moves_pure _
      | none =>
        refine ((Rpc.moves_report _).bind fun _ => Rpc.moves_pure _).ite ?_
        exact (Rpc.onlyReports_encodePrivate _).moves.bind fun _ => Rpc.moves_pure _

theorem moves_readDataSource (r : ReadDataRequest) :
    Rpc.Moves (readDataSource r : Rpc σ δ DataResult) := by
  unfold readDataSource
  refine (Rpc.moves_fresh sound_dataSourceSlot _ _ _).bind_option (Rpc.moves_pure _) fun ready => ?_
  refine Rpc.moves_unless_failed _ ((onlyReports_providerDeferral _).moves.bind fun deferral => ?_)
  cases deferral with
  | some deferral =>
    exact (onlyReports_putOff _).moves.bind_option (Rpc.moves_pure _) fun _ => Rpc.moves_pure _
  | none =>
    refine (Rpc.onlyReports_providerMeta _).moves.bind fun _ => ?_
    refine (Rpc.moves_call (fun _ => by trivial) _ _).bind fun answer => ?_
    refine (onlyReports_checkDeferral _ _ _).moves.bind fun _ => ?_
    exact moves_reconcile_unless_failed ready.2 _ answer.state.raw
      fun state => DataResult.mk state answer.deferred

/-! ## Planning -/

theorem moves_modifyAttributes (schema : ActiveSchema σ) (c : Change) (p : Planned) :
    Rpc.Moves (modifyAttributes schema c p : Rpc σ δ Planned) :=
  (Rpc.moves_pure _).ite ((Rpc.moves_act _).bind fun _ =>
    (Rpc.moves_noteAll (fun _ _ => by trivial) _ _).bind fun _ => Rpc.moves_pure _)

theorem moves_modifyWhole (actions : Resource.Actions σ) (c : Change) (p : Planned) :
    Rpc.Moves (modifyWhole actions c p : Rpc σ δ Planned) := by
  unfold modifyWhole
  split
  · exact Rpc.moves_pure _
  · exact (Rpc.moves_call (fun _ => by trivial) _ _).bind fun _ =>
      (onlyReports_checkDeferral _ _ _).moves.bind fun _ => Rpc.moves_pure _

theorem moves_planStages (actions : Resource.Actions σ) (schema : ActiveSchema σ) (c : Change)
    (prior : PrivateState) : Rpc.Moves (planStages actions schema c prior : Rpc σ δ Planned) := by
  unfold planStages
  dsimp only
  refine (Rpc.moves_report _).bind fun _ => (Rpc.moves_pure _).ite ?_
  refine (onlyReports_providerDeferral _).moves.bind fun deferral => ?_
  cases deferral with
  | some deferral => exact Rpc.moves_pure _
  | none =>
    refine (moves_modifyAttributes schema c _).bind fun p => Rpc.moves_unless_failed _ ?_
    refine (moves_modifyWhole actions c p).bind fun p => Rpc.moves_unless_failed _ ?_
    exact ((Rpc.moves_report _).bind fun _ => Rpc.moves_pure _).ite (Rpc.moves_pure _)

theorem moves_planResource (r : PlanRequest) :
    Rpc.Moves (planResource r : Rpc σ δ PlanResult) := by
  unfold planResource
  refine (Rpc.moves_fresh sound_resourceSlot _ _ _).bind_option (Rpc.moves_pure _) fun ready => ?_
  refine Rpc.moves_unless_failed _ ((Rpc.onlyReports_decodePrivate _).moves.bind fun prior => ?_)
  refine Rpc.moves_unless_failed _ ?_
  refine (onlyReports_requestedChange _ r).moves.bind_option (Rpc.moves_pure _) fun c => ?_
  exact (moves_planStages _ _ c prior).bind fun p =>
    (Rpc.onlyReports_threadPrivate _ _ _).moves.bind fun _ => Rpc.moves_pure _

/-! ## Changing and upgrading -/

theorem moves_prepare (r : ApplyRequest) :
    Rpc.Moves (prepare r : Rpc σ δ (Option (Prepared σ))) :=
  (Rpc.moves_fresh sound_resourceSlot _ _ _).bind_option (Rpc.moves_pure _) fun _ =>
    (Rpc.onlyReports_decodePrivate _).moves.bind fun _ =>
      Rpc.moves_unless_failed _ (Rpc.moves_pure _)

theorem moves_conclude (p : Prepared σ) (plan : Value) (missing : Diagnostic)
    (answer : Resource.Changed) :
    Rpc.Moves (conclude p plan missing answer : Rpc σ δ ApplyResult) := by
  refine (Rpc.onlyReports_encodePrivate _).moves.bind fun privateBytes =>
    Rpc.moves_get.bind fun _ => ?_
  have hrest := moves_reconcile_unless_failed (δ := δ) p.schema plan answer.state.raw
    fun state => ApplyResult.mk state privateBytes
  exact ((Rpc.moves_report _).bind fun _ => hrest).ite hrest

theorem moves_createResource (r : ApplyRequest) :
    Rpc.Moves (createResource r : Rpc σ δ ApplyResult) :=
  (moves_prepare r).bind_option (Rpc.moves_pure _) fun p =>
    (Rpc.onlyReports_providerMeta _).moves.bind fun _ =>
      (Rpc.moves_call (fun _ => by trivial) _ _).bind fun answer => moves_conclude p _ _ answer

theorem moves_updateResource (r : ApplyRequest) :
    Rpc.Moves (updateResource r : Rpc σ δ ApplyResult) :=
  (moves_prepare r).bind_option (Rpc.moves_pure _) fun p =>
    (Rpc.onlyReports_providerMeta _).moves.bind fun _ =>
      (Rpc.moves_call (fun _ => by trivial) _ _).bind fun answer => moves_conclude p _ _ answer

theorem moves_deleteResource (r : ApplyRequest) :
    Rpc.Moves (deleteResource r : Rpc σ δ ApplyResult) :=
  (moves_prepare r).bind_option (Rpc.moves_pure _) fun _ =>
    (Rpc.onlyReports_providerMeta _).moves.bind fun _ =>
      (Rpc.moves_call (fun _ => by trivial) _ _).bind fun _ => Rpc.moves_get.bind fun _ =>
        (Rpc.onlyReports_encodePrivate _).moves.bind fun _ => Rpc.moves_pure _

theorem moves_applyResource (r : ApplyRequest) :
    Rpc.Moves (applyResource r : Rpc σ δ ApplyResult) := by
  unfold applyResource
  split
  · exact moves_createResource r
  · exact moves_updateResource r
  · exact moves_deleteResource r
  · exact (Rpc.moves_report _).bind fun _ => Rpc.moves_pure _

theorem moves_runUpgrader (schema : PlainSchema) (upgrader : Resource.StateUpgrader σ)
    (stored : Json) : Rpc.Moves (runUpgrader schema upgrader stored : Rpc σ δ Value) := by
  unfold runUpgrader
  split
  · exact (Rpc.moves_report _).bind fun _ => Rpc.moves_pure _
  · exact (Rpc.moves_call (fun _ => by trivial) _ _).bind fun answer =>
      Rpc.moves_unless_failed _ (onlyReports_upgradedValue schema answer).moves

theorem moves_upgradeResource (r : UpgradeRequest) :
    Rpc.Moves (upgradeResource r : Rpc σ δ Value) := by
  unfold upgradeResource
  cases r.stored with
  | none => exact Rpc.moves_pure _
  | some stored =>
    refine (Rpc.moves_resolve sound_resourceSlot _).bind_option (Rpc.moves_pure _) fun found => ?_
    refine (onlyReports_passThrough _ stored).moves.ite ?_
    refine (Rpc.moves_instantiate sound_resourceSlot _ _ _).bind fun actions => ?_
    refine Rpc.moves_unless_failed _ ?_
    cases (actions.within found.1.capabilities).upgraders with
    | none => exact (Rpc.moves_report _).bind fun _ => Rpc.moves_pure _
    | some list =>
      refine (Rpc.moves_act _).bind fun upgraders => ?_
      cases upgraders.lookup r.version with
      | none => exact (Rpc.moves_report _).bind fun _ => Rpc.moves_pure _
      | some upgrader => exact moves_runUpgrader _ upgrader stored

/-! ## Ephemeral resources, functions and state stores -/

theorem moves_openEphemeral (r : OpenRequest) :
    Rpc.Moves (openEphemeral r : Rpc σ δ OpenResult) := by
  unfold openEphemeral
  refine (Rpc.moves_fresh sound_ephemeralSlot _ _ _).bind_option (Rpc.moves_pure _) fun ready => ?_
  refine Rpc.moves_unless_failed _ ((onlyReports_providerDeferral _).moves.bind fun deferral => ?_)
  cases deferral with
  | some deferral =>
    exact (onlyReports_putOff _).moves.bind_option (Rpc.moves_pure _) fun _ => Rpc.moves_pure _
  | none =>
    refine (Rpc.moves_call (fun _ => by trivial) _ _).bind fun answer => ?_
    refine (onlyReports_checkDeferral _ _ _).moves.bind fun _ => Rpc.moves_unless_failed _ ?_
    exact (Rpc.onlyReports_encodePrivate _).moves.bind fun _ => Rpc.moves_pure _

theorem moves_heldEphemeral (r : OpenedRequest) : Rpc.Moves
    (heldEphemeral r : Rpc σ δ (Option (EphemeralResource.Actions σ × PrivateState))) :=
  (Rpc.moves_fresh sound_ephemeralSlot _ _ _).bind_option (Rpc.moves_pure _) fun _ =>
    (Rpc.onlyReports_decodePrivate _).moves.bind fun _ =>
      Rpc.moves_unless_failed _ (Rpc.moves_pure _)

theorem moves_renewEphemeral (r : OpenedRequest) :
    Rpc.Moves (renewEphemeral r : Rpc σ δ RenewResult) := by
  refine (moves_heldEphemeral r).bind_option (Rpc.moves_pure _) fun held => ?_
  dsimp only
  cases held.1.renew with
  | none => exact (Rpc.moves_report _).bind fun _ => Rpc.moves_pure _
  | some renew => exact (Rpc.moves_call (fun _ => by trivial) _ _).bind fun _ =>
      (Rpc.onlyReports_encodePrivate _).moves.bind fun _ => Rpc.moves_pure _

theorem moves_closeEphemeral (r : OpenedRequest) :
    Rpc.Moves (closeEphemeral r : Rpc σ δ Unit) := by
  refine (moves_heldEphemeral r).bind_option (Rpc.moves_pure _) fun held => ?_
  dsimp only
  cases held.1.close with
  | none => exact Rpc.moves_report _
  | some close => exact (Rpc.moves_call (fun _ => by trivial) _ _).bind fun _ => Rpc.moves_pure _

theorem moves_callFunction (r : CallRequest) :
    Rpc.Moves (callFunction r : Rpc σ δ CallResult) := by
  refine (Rpc.moves_resolve sound_functionSlot _).bind_option
    (Rpc.moves_get.bind fun _ => Rpc.moves_pure _) fun found => ?_
  dsimp only
  cases found.2.arguments r.arguments with
  | error e => exact Rpc.moves_pure _
  | ok arguments =>
    refine (Rpc.moves_act _).bind fun function => ?_
    refine (Rpc.moves_call (fun _ => by trivial) _ _).bind fun outcome => ?_
    cases outcome.error with
    | none => exact Rpc.moves_pure _
    | some e => exact Rpc.moves_pure _

/-- Every operation on a state store but setting it up is one call on a fresh instance. -/
theorem moves_storeActions_bind (typeName : String)
    {next : Option (StateStore.Actions σ δ) → Rpc σ δ α} (hnone : Rpc.Moves (next none))
    (hsome : ∀ actions, Rpc.Moves (next (some actions))) :
    Rpc.Moves (storeActions typeName >>= next) := by
  refine Rpc.Moves.bind_option ?_ hnone hsome
  exact (Rpc.moves_fresh sound_stateStoreSlot _ _ _).bind_option (Rpc.moves_pure _) fun _ =>
    Rpc.moves_unless_failed _ (Rpc.moves_pure _)

theorem moves_getStates (typeName : String) :
    Rpc.Moves (getStates typeName : Rpc σ δ (List String)) :=
  moves_storeActions_bind typeName (Rpc.moves_pure _) fun _ =>
    (Rpc.moves_call (fun _ => by trivial) _ _).bind fun _ => Rpc.moves_pure _

theorem moves_readState (typeName stateId : String) :
    Rpc.Moves (readState typeName stateId : Rpc σ δ Bytes) :=
  moves_storeActions_bind typeName (Rpc.moves_pure _) fun _ =>
    (Rpc.moves_call (fun _ => by trivial) _ _).bind fun _ => Rpc.moves_pure _

theorem moves_writeState (typeName stateId : String) (document : Bytes) :
    Rpc.Moves (writeState typeName stateId document : Rpc σ δ Unit) :=
  moves_storeActions_bind typeName (Rpc.moves_pure _) fun _ =>
    (Rpc.moves_call (fun _ => by trivial) _ _).bind fun _ => Rpc.moves_pure _

theorem moves_lockState (typeName stateId operation : String) :
    Rpc.Moves (lockState typeName stateId operation : Rpc σ δ String) :=
  moves_storeActions_bind typeName (Rpc.moves_pure _) fun _ =>
    (Rpc.moves_call (fun _ => by trivial) _ _).bind fun _ => Rpc.moves_pure _

theorem moves_unlockState (typeName stateId lockId : String) :
    Rpc.Moves (unlockState typeName stateId lockId : Rpc σ δ Unit) :=
  moves_storeActions_bind typeName (Rpc.moves_pure _) fun _ =>
    (Rpc.moves_call (fun _ => by trivial) _ _).bind fun _ => Rpc.moves_pure _

theorem moves_deleteState (typeName stateId : String) :
    Rpc.Moves (deleteState typeName stateId : Rpc σ δ Unit) :=
  moves_storeActions_bind typeName (Rpc.moves_pure _) fun _ =>
    (Rpc.moves_call (fun _ => by trivial) _ _).bind fun _ => Rpc.moves_pure _

/-! ## Configuring -/

/-- What the provider gives when it is asked to configure itself, which it is not if its own schema
fails. -/
def configuration? (f : Frame σ δ) (r : ConfigureProviderRequest) : Option (SharedData δ) :=
  let (schema, g) := Rpc.providerSchema f
  schema.map fun schema =>
    (g.server.provider.configure ⟨⟨r.config.getD .null, schema⟩, r.callerVersion, r.client⟩
      g.world).1.1

/-- What a store gives when it is set up, which it is not if its type cannot be had. -/
def setUp? (f : Frame σ δ) (r : ConfigureStoreRequest) : Option (Option δ) :=
  let (found, g) := Rpc.resolve stateStoreSlot r.typeName f
  found.map fun found =>
    let (fresh, world) := found.1.factory g.world
    (fresh.actions.setUp
      ⟨⟨r.config.getD .null, found.2.plain⟩, g.server.shared.stateStore, r.client⟩ world).1.1

/-- What a request configures the server with: all that the provider gave, unless that puts off
what the caller does not want put off. -/
def taken? (f : Frame σ δ) : Request → Option (SharedData δ)
  | .configureProvider r => (configuration? f r).filter fun shared =>
    !(shared.deferred.isSome && !r.client.deferralAllowed)
  | _ => none

/-- What a request leaves for the instances of state stores: what the store gave, unless there was
an error. -/
def stored? (f : Frame σ δ) : Request → Option (Option δ)
  | .configureStore r =>
    if Diagnostics.hasError (configureStore r f).2.diagnostics then none else setUp? f r
  | _ => none

/-- The server with what a request configured it with. -/
def configuredBy (f : Frame σ δ) (request : Request) (server : Server σ δ) : Server σ δ :=
  { server with
    shared := (taken? f request).getD server.shared
    storeData := (stored? f request).getD server.storeData }

theorem configuredBy_of_none {f : Frame σ δ} {request : Request} (htaken : taken? f request = none)
    (hstored : stored? f request = none) (server : Server σ δ) :
    configuredBy f request server = server := by
  rw [configuredBy, htaken, hstored]
  rfl

/-- Serving goes on by moves, and the server keeps what it was configured with in the end. -/
def Frame.Serves (f : Frame σ δ) (request : Request) (h : Frame σ δ) : Prop :=
  ∃ g, f.Moves g ∧ h = { g with server := configuredBy f request g.server }

theorem Frame.Moves.serves {f g : Frame σ δ} {request : Request} (h : f.Moves g)
    (htaken : taken? f request = none) (hstored : stored? f request = none) :
    f.Serves request g :=
  ⟨g, h, by rw [configuredBy_of_none htaken hstored]⟩

/-- A provider whose schema is known gives its configuration, which is kept unless it puts off what
the caller does not want put off. -/
theorem configureProvider_of_schema {f g : Frame σ δ} {schema : PlainSchema}
    (hfound : Rpc.providerSchema f = (some schema, g)) (r : ConfigureProviderRequest) :
    let request : ConfigureRequest := ⟨⟨r.config.getD .null, schema⟩, r.callerVersion, r.client⟩
    let called :=
      Rpc.call (.configureProvider request) (g.server.provider.configure request) (·.2) g
    configuration? f r = some called.1.1 ∧
      (configureProvider r f).2 =
        if (called.1.1.deferred.isSome && !r.client.deferralAllowed) = true then
          (Rpc.report [unexpectedProviderDeferral] called.2).2
        else { called.2 with server := { called.2.server with shared := called.1.1 } } := by
  intro request called
  refine ⟨by rw [configuration?, hfound]; rfl, ?_⟩
  have hend : configureProvider r f =
      (if called.1.1.deferred.isSome && !r.client.deferralAllowed then
        Rpc.report [unexpectedProviderDeferral]
      else modify fun f => { f with server := { f.server with shared := called.1.1 } } :
        Rpc σ δ Unit) called.2 := by
    rw [configureProvider, rpc_bind, hfound]
    rfl
  rw [hend]
  split
  · rfl
  · rfl

theorem configureProvider_serves (r : ConfigureProviderRequest) (f : Frame σ δ) :
    f.Serves (.configureProvider r) (configureProvider r f).2 := by
  have hschema := Rpc.moves_providerSchema f
  cases hfound : Rpc.providerSchema f with
  | mk schema g =>
  rw [hfound] at hschema
  cases schema with
  | none =>
    have hnone : configuration? f r = none := by rw [configuration?, hfound]; rfl
    rw [configureProvider, rpc_bind, hfound]
    exact hschema.serves (by rw [taken?, hnone]; rfl) rfl
  | some schema =>
    let request : ConfigureRequest := ⟨⟨r.config.getD .null, schema⟩, r.callerVersion, r.client⟩
    let called :=
      Rpc.call (.configureProvider request) (g.server.provider.configure request) (·.2) g
    have hcalled : f.Moves called.2 := hschema.trans (Rpc.call_moves (by trivial) _ _)
    obtain ⟨hgiven, hend⟩ := configureProvider_of_schema hfound r
    rw [hend]
    split
    · next hrefused =>
      have htaken : taken? f (.configureProvider r) = none := by
        rw [taken?, hgiven, Option.filter_some, hrefused]
        rfl
      have hrefusal : f.Moves (Rpc.report [unexpectedProviderDeferral] called.2).2 :=
        hcalled.tail (.report _ _)
      exact hrefusal.serves htaken rfl
    · next hkept =>
      have htaken : taken? f (.configureProvider r) = some called.1.1 := by
        rw [taken?, hgiven, Option.filter_some, Bool.not_eq_true _ |>.mp hkept]
        rfl
      refine ⟨called.2, hcalled, ?_⟩
      rw [configuredBy, htaken]
      rfl

/-- A store whose type is known gives the data of its set-up, which is kept unless there was an
error. -/
theorem configureStore_of_found {f g : Frame σ δ} {r : ConfigureStoreRequest}
    {entry : Entry σ (StateStore σ δ) StateStore.Capabilities} {schema : ActiveSchema σ}
    (hfound : Rpc.resolve stateStoreSlot r.typeName f = (some (entry, schema), g)) :
    let fresh := entry.factory g.world
    let request : StateStore.SetUpRequest δ :=
      ⟨⟨r.config.getD .null, schema.plain⟩, g.server.shared.stateStore, r.client⟩
    let called := Rpc.call (.setUpStore r.typeName request) (fresh.1.actions.setUp request) (·.2)
      { g with world := fresh.2 }
    setUp? f r = some called.1.1 ∧
      (configureStore r f).2 =
        if Diagnostics.hasError called.2.diagnostics = true then called.2
        else { called.2 with server := { called.2.server with storeData := called.1.1 } } := by
  intro fresh request called
  refine ⟨by rw [setUp?, hfound]; rfl, ?_⟩
  have hend : configureStore r f =
      (do
        if ← Rpc.failed then return
        modify fun f => { f with server := { f.server with storeData := called.1.1 } } :
          Rpc σ δ Unit) called.2 := by
    rw [configureStore, rpc_bind, hfound]
    rfl
  rw [hend, rpc_bind, Rpc.failed_eq]
  split
  · rfl
  · rfl

theorem configureStore_serves (r : ConfigureStoreRequest) (f : Frame σ δ) :
    f.Serves (.configureStore r) (configureStore r f).2 := by
  have hresolve := Rpc.moves_resolve sound_stateStoreSlot r.typeName f
  cases hfound : Rpc.resolve stateStoreSlot r.typeName f with
  | mk found g =>
  rw [hfound] at hresolve
  cases found with
  | none =>
    have hnone : setUp? f r = none := by rw [setUp?, hfound]; rfl
    have hstored : stored? f (.configureStore r) = none := by
      rw [stored?.eq_1, hnone]
      exact ite_self none
    have hend : (configureStore r f).2 = g := by rw [configureStore, rpc_bind, hfound]; rfl
    rw [hend]
    exact hresolve.serves rfl hstored
  | some found =>
    let fresh := found.1.factory g.world
    let request : StateStore.SetUpRequest δ :=
      ⟨⟨r.config.getD .null, found.2.plain⟩, g.server.shared.stateStore, r.client⟩
    let called := Rpc.call (.setUpStore r.typeName request) (fresh.1.actions.setUp request) (·.2)
      { g with world := fresh.2 }
    have hcalled : f.Moves called.2 :=
      (hresolve.tail (.act g fresh.2)).trans (Rpc.call_moves (by rfl) _ _)
    obtain ⟨hgiven, hend⟩ := configureStore_of_found hfound
    rw [hend]
    split
    · next herror =>
      have hstored : stored? f (.configureStore r) = none := by
        rw [stored?.eq_1, hend, if_pos herror, if_pos herror]
      exact hcalled.serves rfl hstored
    · next hok =>
      have hstored : stored? f (.configureStore r) = some called.1.1 := by
        rw [stored?.eq_1, hend, if_neg hok, if_neg hok]
        exact hgiven
      refine ⟨called.2, hcalled, ?_⟩
      rw [configuredBy, hstored]
      rfl

/-! ## Any request -/

/-- Whatever a request is, serving it goes on by moves, and the server keeps what the request
configured it with. -/
theorem serving_serves (request : Request) (f : Frame σ δ) :
    f.Serves request (serving request f).2 := by
  cases request with
  | getMetadata => exact (moves_getMetadata f).serves rfl rfl
  | getProviderSchema => exact (moves_getProviderSchema f).serves rfl rfl
  | validateProvider config => exact (moves_validateProvider config f).serves rfl rfl
  | configureProvider r => exact configureProvider_serves r f
  | validateResource r => exact (moves_validateResource r f).serves rfl rfl
  | readResource r => exact (moves_readResource r f).serves rfl rfl
  | planResource r => exact (moves_planResource r f).serves rfl rfl
  | applyResource r => exact (moves_applyResource r f).serves rfl rfl
  | createResource r => exact (moves_createResource r f).serves rfl rfl
  | updateResource r => exact (moves_updateResource r f).serves rfl rfl
  | deleteResource r => exact (moves_deleteResource r f).serves rfl rfl
  | upgradeResource r => exact (moves_upgradeResource r f).serves rfl rfl
  | importResource r => exact (moves_importResource r f).serves rfl rfl
  | validateDataSource r => exact (moves_validateDataSource r f).serves rfl rfl
  | readDataSource r => exact (moves_readDataSource r f).serves rfl rfl
  | validateEphemeral r => exact (moves_validateEphemeral r f).serves rfl rfl
  | openEphemeral r => exact (moves_openEphemeral r f).serves rfl rfl
  | renewEphemeral r => exact (moves_renewEphemeral r f).serves rfl rfl
  | closeEphemeral r => exact (moves_closeEphemeral r f).serves rfl rfl
  | getFunctions => exact (Rpc.moves_describeAll sound_functionSlot f).serves rfl rfl
  | callFunction r => exact (moves_callFunction r f).serves rfl rfl
  | validateStore r => exact (moves_validateStore r f).serves rfl rfl
  | configureStore r => exact configureStore_serves r f
  | getStates typeName => exact (moves_getStates typeName f).serves rfl rfl
  | readState typeName stateId => exact (moves_readState typeName stateId f).serves rfl rfl
  | writeState typeName stateId document =>
    exact (moves_writeState typeName stateId document f).serves rfl rfl
  | lockState typeName stateId operation =>
    exact (moves_lockState typeName stateId operation f).serves rfl rfl
  | unlockState typeName stateId lockId =>
    exact (moves_unlockState typeName stateId lockId f).serves rfl rfl
  | deleteState typeName stateId => exact (moves_deleteState typeName stateId f).serves rfl rfl

theorem serving_shared (request : Request) (f : Frame σ δ) :
    (serving request f).2.server.shared = (taken? f request).getD f.server.shared := by
  obtain ⟨g, hmoves, hend⟩ := serving_serves request f
  rw [hend, ← hmoves.hands.agrees.shared]
  rfl

theorem serving_storeData (request : Request) (f : Frame σ δ) :
    (serving request f).2.server.storeData = (stored? f request).getD f.server.storeData := by
  obtain ⟨g, hmoves, hend⟩ := serving_serves request f
  rw [hend, ← hmoves.hands.agrees.storeData]
  rfl

theorem serving_options (request : Request) (f : Frame σ δ) :
    (serving request f).2.server.options = f.server.options := by
  obtain ⟨g, hmoves, hend⟩ := serving_serves request f
  rw [hend, ← hmoves.hands.agrees.options]
  rfl

/-- What a request hands to callbacks is what the server had for them before it. -/
theorem serving_hands (request : Request) (f : Frame σ δ) :
    ∃ cs, (serving request f).2.calls = f.calls ++ cs ∧ ∀ c ∈ cs, f.server.Hands c.callback := by
  obtain ⟨g, hmoves, hend⟩ := serving_serves request f
  rw [hend]
  exact hmoves.hands.calls

end ProviderKit.Server
