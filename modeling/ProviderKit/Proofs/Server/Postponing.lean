import ProviderKit.Proofs.Server.Consent
import ProviderKit.Proofs.Server.Deferred
import ProviderKit.Proofs.Server.PrivateEntries
import ProviderKit.Proofs.Server.Runs

-- Everything put off. Once a provider is configured to put everything off, a request whose caller
-- allows that gets its instance and nothing more: what is left to do only reports, and the answer
-- says why it was put off.

namespace ProviderKit.Server

variable {σ δ α β γ κ η : Type}

/-! ## Steps of a server that puts everything off -/

/-- The server was configured to put everything off, and honours that. -/
structure PutsOff (server : Server σ δ) (d : Deferral) : Prop where
  honoured : server.options.providerDeferral = true
  deferred : server.shared.deferred = some d

theorem PutsOff.of_agrees {s t : Server σ δ} {d : Deferral} (h : s.PutsOff d) (hst : s.Agrees t) :
    t.PutsOff d :=
  ⟨(congrArg ServerOptions.providerDeferral hst.options).trans h.honoured,
    (congrArg SharedData.deferred hst.shared).trans h.deferred⟩

theorem providerDeferral_of_putsOff {f : Frame σ δ} {d : Deferral} (h : f.server.PutsOff d)
    {client : ClientCapabilities} (hallowed : client.deferralAllowed = true) :
    providerDeferral client f = (some d, f) := by
  have hfound : providerDeferral client f =
      (if f.server.options.providerDeferral && client.deferralAllowed then
        f.server.shared.deferred else none, f) := rfl
  rw [hfound, h.honoured, hallowed, h.deferred]
  rfl

/-- While everything is put off, the step only reports, and unless something that was reported is an
error, the result satisfies `R`. -/
def Postpones (d : Deferral) (R : α → Prop) (rpc : Rpc σ δ α) : Prop :=
  ∀ f, f.server.PutsOff d →
    f.Reports (rpc f).2 ∧ (Diagnostics.hasError (rpc f).2.diagnostics = false → R (rpc f).1)

variable {d : Deferral} {Q : α → Prop} {R : γ → Prop} {rpc : Rpc σ δ α} {next : α → Rpc σ δ γ}

theorem postpones_pure {a : α} (h : Q a) : Postpones d Q (pure a : Rpc σ δ α) :=
  fun f _ => ⟨.refl f, fun _ => h⟩

/-- Where something is reported for which the result is no matter. -/
theorem postpones_any_pure (a : α) : Postpones d (fun _ => True) (pure a : Rpc σ δ α) :=
  postpones_pure trivial

theorem Postpones.of_onlyReports (h : Rpc.OnlyReports rpc) (hensures : Rpc.Ensures Q rpc) :
    Postpones d Q rpc := fun f _ => ⟨h f, hensures f⟩

theorem postpones_bind (h : Rpc.OnlyReports rpc) (hnext : ∀ a, Postpones d R (next a)) :
    Postpones d R (rpc >>= next) := by
  intro f hf
  have hserver : (rpc f).2.server.PutsOff d := (h f).server ▸ hf
  obtain ⟨hreports, hresult⟩ := hnext (rpc f).1 (rpc f).2 hserver
  exact ⟨(h f).trans hreports, hresult⟩

/-- What a step ensures may be used after it. Where the step falls short, an error was reported. -/
theorem Postpones.bind (h : Postpones d Q rpc) (hnext : ∀ a, Q a → Postpones d R (next a))
    (hshort : ∀ a, ¬ Q a → Postpones d (fun _ => True) (next a)) :
    Postpones d R (rpc >>= next) := by
  intro f hf
  obtain ⟨hreports, hresult⟩ := h f hf
  have hserver : (rpc f).2.server.PutsOff d := hreports.server ▸ hf
  by_cases hq : Q (rpc f).1
  · obtain ⟨hrest, hdone⟩ := hnext _ hq _ hserver
    exact ⟨hreports.trans hrest, hdone⟩
  · obtain ⟨hrest, -⟩ := hshort _ hq _ hserver
    refine ⟨hreports.trans hrest, fun hok => absurd (hresult ?_) hq⟩
    exact hrest.not_hasError hok

/-- A step that may come back empty, but only with an error. -/
theorem Postpones.bind_some {G : α → Prop} {rpc : Rpc σ δ (Option α)}
    {next : Option α → Rpc σ δ γ} (h : Postpones d (fun found => found.isSome = true) rpc)
    (hgives : Rpc.Gives (fun found => ∀ a, found = some a → G a) rpc)
    (hnone : Postpones d (fun _ => True) (next none))
    (hsome : ∀ a, G a → Postpones d R (next (some a))) : Postpones d R (rpc >>= next) := by
  intro f hf
  obtain ⟨hreports, hresult⟩ := h f hf
  have hserver : (rpc f).2.server.PutsOff d := hreports.server ▸ hf
  have hgiven := hgives f
  rw [rpc_bind]
  cases hfound : (rpc f).1 with
  | some a =>
    obtain ⟨hrest, hdone⟩ := hsome a (hgiven a hfound) _ hserver
    exact ⟨hreports.trans hrest, hdone⟩
  | none =>
    obtain ⟨hrest, -⟩ := hnone _ hserver
    refine ⟨hreports.trans hrest, fun hok => ?_⟩
    have hfull := hresult (hrest.not_hasError hok)
    rw [hfound] at hfull
    cases hfull

theorem postpones_failed_bind {next : Bool → Rpc σ δ γ} (hnext : Postpones d R (next false))
    (hfailed : Postpones d (fun _ => True) (next true)) :
    Postpones d R (Rpc.failed >>= next) := by
  intro f hf
  rw [rpc_bind, Rpc.failed_eq]
  cases herror : Diagnostics.hasError f.diagnostics with
  | false => exact hnext f hf
  | true =>
    obtain ⟨hreports, -⟩ := hfailed f hf
    refine ⟨hreports, fun hok => ?_⟩
    have hclean := hreports.not_hasError hok
    rw [herror] at hclean
    cases hclean

/-- The deferral of the provider is found wherever it is looked for. -/
theorem postpones_providerDeferral_bind {client : ClientCapabilities}
    (hallowed : client.deferralAllowed = true) {next : Option Deferral → Rpc σ δ γ}
    (hnext : Postpones d R (next (some d))) :
    Postpones d R (providerDeferral client >>= next) := by
  intro f hf
  rw [rpc_bind, providerDeferral_of_putsOff hf hallowed]
  exact hnext f hf

/-! ## Planning -/

theorem postpones_planStages (actions : Resource.Actions σ) (schema : ActiveSchema σ) {c : Change}
    (hallowed : c.client.deferralAllowed = true) (prior : PrivateState) :
    Postpones d
      (fun p => p.deferred = some d ∧ p.requiresReplace = [] ∧ p.privateState = prior)
      (planStages actions schema c prior : Rpc σ δ Planned) := by
  unfold planStages
  cases hdraft : draft c with
  | mk drafted problem =>
  cases problem with
  | some problem =>
    -- The draft is answered as far as it came, next to an error.
    refine .of_onlyReports ?_ ?_
    · exact (Rpc.onlyReports_report _).bind fun _ => Rpc.onlyReports_pure _
    · exact Rpc.ensures_report_bind (isError_of_draft hdraft) (Rpc.adds_pure _)
  | none =>
    refine postpones_bind (Rpc.onlyReports_report _) fun _ => ?_
    refine postpones_providerDeferral_bind hallowed ?_
    exact postpones_pure ⟨rfl, rfl, rfl⟩

/-! ## From the instance on -/

/-- While everything is put off, the step makes its instance so, and from then on only reports. -/
def PostponesFrom (d : Deferral) (make : Rpc σ δ β) (R : α → Prop) (rpc : Rpc σ δ α) : Prop :=
  ∀ f, f.server.PutsOff d →
    (make f).2.Reports (rpc f).2 ∧
      (Diagnostics.hasError (rpc f).2.diagnostics = false → R (rpc f).1)

theorem postponesFrom_fresh {s : Slot σ δ (DeclaredType σ δ α) κ η} (hs : s.Sound)
    (takesData : κ → Bool) (within : α → κ → α) (typeName : String)
    {next : Option (α × η) → Rpc σ δ γ} (hnone : Postpones d (fun _ => True) (next none))
    (hsome : ∀ ready, Postpones d R (next (some ready))) :
    PostponesFrom d (Rpc.fresh s takesData within typeName) R
      (Rpc.fresh s takesData within typeName >>= next) := by
  intro f hf
  have hserver : (Rpc.fresh s takesData within typeName f).2.server.PutsOff d :=
    hf.of_agrees (Rpc.moves_fresh hs takesData within typeName f).hands.agrees
  have hready := Rpc.ensures_fresh s takesData within typeName f
  rw [rpc_bind]
  cases hfound : (Rpc.fresh s takesData within typeName f).1 with
  | some ready => exact hsome ready _ hserver
  | none =>
    obtain ⟨hreports, -⟩ := hnone _ hserver
    refine ⟨hreports, fun hok => ?_⟩
    have hsome := hready (hreports.not_hasError hok)
    rw [hfound] at hsome
    cases hsome

/-! ## Requests -/

theorem postponesFrom_readResource {r : ReadRequest} {current : Value}
    (hcurrent : r.currentState = some current) (hallowed : r.client.deferralAllowed = true) :
    PostponesFrom d (freshResource r.typeName)
      (fun result => result = ⟨current, r.privateBytes, some d⟩)
      (readResource r : Rpc σ δ ReadResult) := by
  unfold readResource
  rw [hcurrent]
  refine postponesFrom_fresh sound_resourceSlot _ _ r.typeName (postpones_any_pure _)
    fun ready => ?_
  refine postpones_bind (Rpc.onlyReports_decodePrivate _) fun prior => ?_
  refine postpones_failed_bind ?_ (postpones_any_pure _)
  exact postpones_providerDeferral_bind hallowed (postpones_pure rfl)

theorem postponesFrom_planResource {r : PlanRequest} (hallowed : r.client.deferralAllowed = true) :
    PostponesFrom d (freshResource r.typeName)
      (fun result => ∃ state, result = ⟨state, [], r.privateBytes, some d⟩)
      (planResource r : Rpc σ δ PlanResult) := by
  refine postponesFrom_fresh sound_resourceSlot _ _ r.typeName (postpones_any_pure _)
    fun ready => ?_
  refine postpones_failed_bind ?_ (postpones_any_pure _)
  refine postpones_bind (Rpc.onlyReports_decodePrivate _) fun prior => ?_
  refine postpones_failed_bind ?_ (postpones_any_pure _)
  have hrequested : Postpones d (fun change => change.isSome = true)
      (requestedChange ready.2.plain r : Rpc σ δ (Option Change)) :=
    .of_onlyReports (onlyReports_requestedChange _ r) (ensures_requestedChange _ r)
  refine hrequested.bind_some (gives_requestedChange_client _ r) (postpones_any_pure _)
    fun c hclient => ?_
  have hplanned := postpones_planStages (σ := σ) (δ := δ) (d := d) ready.1 ready.2
    (hclient.symm ▸ hallowed : c.client.deferralAllowed = true) prior
  refine hplanned.bind (fun p hp => ?_) fun p _ => ?_
  · obtain ⟨hdeferred, hreplace, hprivate⟩ := hp
    have hthreaded : Postpones d (fun bytes => bytes = r.privateBytes)
        (Rpc.threadPrivate r.privateBytes prior p.privateState : Rpc σ δ Bytes) := by
      refine .of_onlyReports (Rpc.onlyReports_threadPrivate _ _ _) fun f _ => ?_
      rw [hprivate, Rpc.threadPrivate_same]
    refine hthreaded.bind (fun bytes hbytes => ?_) fun bytes _ => postpones_any_pure _
    rw [hdeferred, hreplace, hbytes]
    exact postpones_pure ⟨_, rfl⟩
  · exact postpones_bind (Rpc.onlyReports_threadPrivate _ _ _) fun _ => postpones_any_pure _

theorem postponesFrom_importResource {r : ImportRequest}
    (hallowed : r.client.deferralAllowed = true) :
    PostponesFrom d (freshResource r.typeName) (fun result => result.deferred = some d)
      (importResource r : Rpc σ δ ImportResult) := by
  refine postponesFrom_fresh sound_resourceSlot _ _ r.typeName (postpones_any_pure _)
    fun ready => ?_
  refine postpones_failed_bind ?_ (postpones_any_pure _)
  exact postpones_providerDeferral_bind hallowed (postpones_pure rfl)

theorem postpones_putOff_bind (config : Described) {failure : α} {give : Value → α}
    (hgive : ∀ v, Q (give v)) :
    Postpones d Q
      (do
        let some v ← putOff config | return failure
        return give v : Rpc σ δ α) := by
  have hputOff : Postpones d (fun found => found.isSome = true)
      (putOff config : Rpc σ δ (Option Value)) := by
    refine .of_onlyReports (onlyReports_putOff config) fun f hok => ?_
    obtain ⟨v, hfound, -⟩ := ensures_putOff config f hok
    exact Option.isSome_of_mem hfound
  exact hputOff.bind_some (G := fun _ => True) (fun _ _ _ => trivial) (postpones_any_pure _)
    fun v _ => postpones_pure (hgive v)

theorem postponesFrom_readDataSource {r : ReadDataRequest}
    (hallowed : r.client.deferralAllowed = true) :
    PostponesFrom d (freshDataSource r.typeName) (fun result => result.deferred = some d)
      (readDataSource r : Rpc σ δ DataResult) := by
  refine postponesFrom_fresh sound_dataSourceSlot _ _ r.typeName (postpones_any_pure _)
    fun ready => ?_
  refine postpones_failed_bind ?_ (postpones_any_pure _)
  exact postpones_providerDeferral_bind hallowed (postpones_putOff_bind _ fun _ => rfl)

theorem postponesFrom_openEphemeral {r : OpenRequest} (hallowed : r.client.deferralAllowed = true) :
    PostponesFrom d (freshEphemeral r.typeName) (fun result => result.deferred = some d)
      (openEphemeral r : Rpc σ δ OpenResult) := by
  refine postponesFrom_fresh sound_ephemeralSlot _ _ r.typeName (postpones_any_pure _)
    fun ready => ?_
  refine postpones_failed_bind ?_ (postpones_any_pure _)
  exact postpones_providerDeferral_bind hallowed (postpones_putOff_bind _ fun _ => rfl)

/-! ## Any request -/

/-- Getting the instance that a request works on. -/
def getInstance : Request → Rpc σ δ Unit
  | .readResource r =>
    if r.currentState.isSome then (fun _ => ()) <$> freshResource r.typeName else pure ()
  | .planResource r => (fun _ => ()) <$> freshResource r.typeName
  | .importResource r => (fun _ => ()) <$> freshResource r.typeName
  | .readDataSource r => (fun _ => ()) <$> freshDataSource r.typeName
  | .openEphemeral r => (fun _ => ()) <$> freshEphemeral r.typeName
  | _ => pure ()

theorem adds_configures_getInstance (request : Request) :
    Rpc.Adds Callback.Configures (getInstance request : Rpc σ δ Unit) := by
  cases request with
  | readResource r =>
    exact Rpc.Adds.ite (Rpc.adds_configures_fresh resourceSlot _ _ r.typeName) (Rpc.adds_pure _)
  | planResource r => exact Rpc.adds_configures_fresh resourceSlot _ _ r.typeName
  | importResource r => exact Rpc.adds_configures_fresh resourceSlot _ _ r.typeName
  | readDataSource r => exact Rpc.adds_configures_fresh dataSourceSlot _ _ r.typeName
  | openEphemeral r => exact Rpc.adds_configures_fresh ephemeralSlot _ _ r.typeName
  | _ => exact Rpc.adds_pure _

/-- The result of a request that was put off says why. What was read is answered as it came, and
what was planned replaces nothing and keeps its private state. -/
def PutOff (d : Deferral) : Request → Result → Prop
  | .readResource r, result => ∃ current, r.currentState = some current ∧
      result = .read ⟨current, r.privateBytes, some d⟩
  | .planResource r, result => ∃ state, result = .plan ⟨state, [], r.privateBytes, some d⟩
  | _, result => result.deferred? = some d

theorem PutOff.deferred {request : Request} {result : Result} (h : PutOff d request result) :
    result.deferred? = some d := by
  unfold PutOff at h
  split at h
  · obtain ⟨current, -, rfl⟩ := h
    rfl
  · obtain ⟨state, rfl⟩ := h
    rfl
  · exact h

/-- There is nothing to read without a current state. -/
theorem readResource_of_none {r : ReadRequest} (hnone : r.currentState = none) (f : Frame σ δ) :
    f.Reports (readResource r f).2 ∧
      Diagnostics.hasError (readResource r f).2.diagnostics = true := by
  have hend : readResource r f = (Rpc.report [missingCurrentState] >>= fun _ => pure .none) f := by
    rw [readResource, hnone]
  rw [hend]
  exact ⟨Rpc.onlyReports_report _ f, Rpc.hasError_report_bind rfl (Rpc.adds_pure _) f⟩

theorem postponesFrom_serving {request : Request} {client : ClientCapabilities}
    (hcaller : request.caller? = some client) (hallowed : client.deferralAllowed = true) :
    PostponesFrom d (getInstance request) (PutOff d request)
      (serving request : Rpc σ δ Result) := by
  intro f hf
  cases request <;> cases hcaller
  case readResource r =>
    cases hcurrent : r.currentState with
    | none =>
      obtain ⟨hreports, herror⟩ := readResource_of_none hcurrent f
      rw [getInstance, hcurrent]
      exact ⟨hreports, fun hok => Bool.noConfusion (hok.symm.trans herror)⟩
    | some current =>
      obtain ⟨hreports, hresult⟩ := postponesFrom_readResource hcurrent hallowed f hf
      rw [getInstance, hcurrent]
      exact ⟨hreports, fun hok => ⟨current, hcurrent, congrArg Result.read (hresult hok)⟩⟩
  case planResource r =>
    obtain ⟨hreports, hresult⟩ := postponesFrom_planResource hallowed f hf
    refine ⟨hreports, fun hok => ?_⟩
    obtain ⟨state, hstate⟩ := hresult hok
    exact ⟨state, congrArg Result.plan hstate⟩
  case importResource r => exact postponesFrom_importResource hallowed f hf
  case readDataSource r => exact postponesFrom_readDataSource hallowed f hf
  case openEphemeral r => exact postponesFrom_openEphemeral hallowed f hf

/-- After a run of requests that left the server with a deferral for everything, a request whose
caller allows that gets its instance, which may be given its data, and calls nothing else. It is
answered with the deferral, or with an error. -/
theorem everything_put_off (provider : Provider σ δ) (options : ServerOptions) (world : σ)
    (run : List Request) (request : Request) (client : ClientCapabilities) (d : Deferral)
    (honoured : options.providerDeferral = true) (hcaller : request.caller? = some client)
    (hallowed : client.deferralAllowed = true) :
    let started := Server.start provider options world
    let f := afterRun started.1 started.2 run
    f.server.shared.deferred = some d →
    let served := serve f.server request f.world
    let made := (getInstance request f).2
    (∀ call ∈ served.1.1.calls, call.callback.Configures) ∧
      served.1.1.calls = made.calls ∧ served.2 = made.world ∧
      (Diagnostics.hasError served.1.1.diagnostics = true ∨
        served.1.1.result.deferred? = some d ∧ PutOff d request served.1.1.result) := by
  intro started f hdeferred served made
  -- A run never changes the options, so they are still those the server was started with.
  have hoptions : f.server.options = options := afterRun_options started.1 started.2 run
  have hf : f.server.PutsOff d :=
    ⟨(congrArg ServerOptions.providerDeferral hoptions).trans honoured, hdeferred⟩
  obtain ⟨hreports, hresult⟩ := postponesFrom_serving (σ := σ) hcaller hallowed f hf
  have hcalls : served.1.1.calls = made.calls := hreports.calls
  have hworld : served.2 = made.world := hreports.world
  refine ⟨fun call hcall => ?_, hcalls, hworld, ?_⟩
  · rw [hcalls] at hcall
    rcases (adds_configures_getInstance request f).mem_calls hcall with hbefore | hconfigures
    · cases hbefore
    · exact hconfigures
  · cases herror : Diagnostics.hasError served.1.1.diagnostics with
    | true => exact .inl rfl
    | false => exact .inr ⟨(hresult herror).deferred, hresult herror⟩

/-- The waiting provider, configured. -/
def waitingFrame : Frame Nat Unit :=
  let started : Server Nat Unit := (Server.start waitingProvider .standard 0).1
  afterRun started 0 [.configureProvider ⟨some (.map []), "1.0.0", ⟨true⟩⟩]

def waitingAnswer (request : Request) : Answer Unit Result :=
  (serve waitingFrame.server request waitingFrame.world).1.1

/-- A rule that listens on a port. -/
def portRule (port : String) : Value :=
  .map [("rules", .list [.map [("name", .string "web"), ("port", .string port)]])]

def portRefresh : ReadRequest := ⟨"lone_thing", some (portRule "80"), [], none, ⟨true⟩⟩

/-- The rule gets another port. -/
def portChange : PlanRequest :=
  ⟨"lone_thing", some (portRule "80"), some (portRule "81"), some (portRule "81"), [], none, ⟨true⟩⟩

theorem waiting_rule_put_off :
    waitingFrame.server.shared.deferred = some .providerConfigUnknown ∧
      Diagnostics.hasError (waitingAnswer (.readResource portRefresh)).diagnostics = false ∧
      PutOff .providerConfigUnknown (.readResource portRefresh)
        (waitingAnswer (.readResource portRefresh)).result ∧
      Diagnostics.hasError (waitingAnswer (.planResource portChange)).diagnostics = false ∧
      PutOff .providerConfigUnknown (.planResource portChange)
        (waitingAnswer (.planResource portChange)).result := by
  have hread : Diagnostics.hasError (waitingAnswer (.readResource portRefresh)).diagnostics =
      false := by decide +kernel
  have hplanned : Diagnostics.hasError (waitingAnswer (.planResource portChange)).diagnostics =
      false := by decide +kernel
  have hput (request : Request) (hcaller : request.caller? = some ⟨true⟩)
      (hok : Diagnostics.hasError (waitingAnswer request).diagnostics = false) :
      PutOff .providerConfigUnknown request (waitingAnswer request).result := by
    obtain ⟨-, -, -, herror | hput⟩ := everything_put_off waitingProvider .standard 0
      [.configureProvider ⟨some (.map []), "1.0.0", ⟨true⟩⟩] request ⟨true⟩
      .providerConfigUnknown rfl hcaller rfl rfl
    · exact Bool.noConfusion (hok.symm.trans herror)
    · exact hput.2
  exact ⟨rfl, hread, hput _ rfl hread, hplanned, hput _ rfl hplanned⟩

end ProviderKit.Server
