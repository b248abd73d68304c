import ProviderKit.Proofs.Server.ProviderData

-- Deferrals that callers can deal with. One that comes from the provider's configuration is asked
-- for only where the caller allows it, and one that comes from a callback is checked, so an answer
-- without an error is put off only for a caller that allows that.

namespace ProviderKit

/-- The caller of a request that may be put off. -/
def Request.caller? : Request → Option ClientCapabilities
  | .readResource r => some r.client
  | .planResource r => some r.client
  | .importResource r => some r.client
  | .readDataSource r => some r.client
  | .openEphemeral r => some r.client
  | _ => none

namespace Server

variable {σ δ α : Type}

/-- Why an answer was put off. -/
def Result.deferred? : Result → Option Deferral
  | .read r => r.deferred
  | .plan r => r.deferred
  | .importResult r => r.deferred
  | .data r => r.deferred
  | .opened r => r.deferred
  | _ => none

/-- There is a deferral only if the caller can deal with one. -/
def Allowed (client : ClientCapabilities) (deferred : Option Deferral) : Prop :=
  deferred.isSome = true → client.deferralAllowed = true

theorem allowed_none (client : ClientCapabilities) : Allowed client none := by
  intro h
  cases h

/-! ## The two sources of deferrals -/

theorem gives_providerDeferral (client : ClientCapabilities) :
    Rpc.Gives (Allowed client) (providerDeferral client : Rpc σ δ (Option Deferral)) := by
  intro f hsome
  have hfound : (providerDeferral client f).1 =
      if f.server.options.providerDeferral && client.deferralAllowed then f.server.shared.deferred
      else none := rfl
  rw [hfound] at hsome
  split at hsome
  · next h => exact (Bool.and_eq_true_iff.mp h).2
  · cases hsome

/-- A deferral that was checked is allowed, unless that is reported. -/
theorem ensures_checkDeferral_bind (label : String) {client : ClientCapabilities}
    {deferred : Option Deferral} {R : α → Prop} {next : Unit → Rpc σ δ α}
    (hnext : Allowed client deferred → Rpc.Ensures R (next ()))
    (hadds : Rpc.Adds (fun _ => True) (next ())) :
    Rpc.Ensures R (checkDeferral label client deferred >>= next) := by
  unfold checkDeferral
  split
  · exact Rpc.ensures_report_bind rfl hadds
  · next hnot =>
    refine Rpc.ensures_bind fun _ => hnext fun hsome => ?_
    rw [hsome, Bool.true_and, Bool.not_eq_true'] at hnot
    exact Bool.not_eq_false _ |>.mp hnot

/-! ## Reading and importing -/

/-- What is found is answered with the deferral of the callback, and comparing it changes that no
more. -/
theorem ensures_reconciled {client : ClientCapabilities} {deferred : Option Deferral}
    (hallowed : Allowed client deferred) (schema : ActiveSchema σ) (prior proposed : Value)
    {give : Value → α} {deferredOf : α → Option Deferral}
    (hgive : ∀ v, deferredOf (give v) = deferred) :
    Rpc.Ensures (fun result => Allowed client (deferredOf result))
      (do
        if ← Rpc.failed then return give proposed
        return give (← Rpc.reconcile schema prior proposed) : Rpc σ δ α) := by
  have hpure (v : Value) :
      Rpc.Ensures (fun result => Allowed client (deferredOf result))
        (pure (give v) : Rpc σ δ α) := by
    refine Rpc.ensures_pure ?_
    rw [hgive]
    exact hallowed
  refine Rpc.ensures_bind fun failed => ?_
  split
  · exact hpure proposed
  · exact Rpc.ensures_bind hpure

theorem ensures_readResource (r : ReadRequest) :
    Rpc.Ensures (fun result => Allowed r.client result.deferred)
      (readResource r : Rpc σ δ ReadResult) := by
  unfold readResource
  cases r.currentState with
  | none => exact Rpc.ensures_bind fun _ => Rpc.ensures_pure (allowed_none _)
  | some current =>
    refine Rpc.ensures_bind fun ready => ?_
    cases ready with
    | none => exact Rpc.ensures_pure (allowed_none _)
    | some ready =>
      refine Rpc.ensures_bind fun prior => Rpc.ensures_bind fun failed => ?_
      split
      · exact Rpc.ensures_pure (allowed_none _)
      · refine (gives_providerDeferral _).bind_ensures fun deferral hdeferral => ?_
        cases deferral with
        | some deferral => exact Rpc.ensures_pure hdeferral
        | none =>
          refine Rpc.ensures_bind fun _ => Rpc.ensures_bind fun answer => ?_
          refine ensures_checkDeferral_bind _ (fun hallowed => ?_) ?_
          · exact Rpc.ensures_bind fun privateBytes =>
              ensures_reconciled hallowed ready.2 current answer.state.raw fun _ => rfl
          · refine (Rpc.adds_threadPrivate _ _ _).bind fun privateBytes => ?_
            exact (Rpc.adds_reconcile_unless_failed ready.2 current answer.state.raw
              fun state => ReadResult.mk state privateBytes answer.deferred).mono
              fun _ _ => trivial

theorem ensures_importResource (r : ImportRequest) :
    Rpc.Ensures (fun result => Allowed r.client result.deferred)
      (importResource r : Rpc σ δ ImportResult) := by
  unfold importResource
  refine Rpc.ensures_bind fun ready => ?_
  cases ready with
  | none => exact Rpc.ensures_pure (allowed_none _)
  | some ready =>
    refine Rpc.ensures_bind fun failed => ?_
    split
    · exact Rpc.ensures_pure (allowed_none _)
    · refine (gives_providerDeferral _).bind_ensures fun deferral hdeferral => ?_
      cases deferral with
      | some deferral => exact Rpc.ensures_pure hdeferral
      | none =>
        dsimp only
        split
        · refine Rpc.ensures_bind fun answer => ensures_checkDeferral_bind _ (fun hallowed => ?_) ?_
          · refine Rpc.ensures_bind fun failed => ?_
            split
            · exact Rpc.ensures_pure (allowed_none _)
            · split
              · next deferral hanswer => exact Rpc.ensures_pure (hanswer ▸ hallowed)
              · split
                · exact Rpc.ensures_bind fun _ => Rpc.ensures_pure (allowed_none _)
                · exact Rpc.ensures_bind fun _ => Rpc.ensures_pure (allowed_none _)
          · exact adds_imported r.typeName answer
        · exact Rpc.ensures_bind fun _ => Rpc.ensures_pure (allowed_none _)

theorem ensures_readDataSource (r : ReadDataRequest) :
    Rpc.Ensures (fun result => Allowed r.client result.deferred)
      (readDataSource r : Rpc σ δ DataResult) := by
  unfold readDataSource
  refine Rpc.ensures_bind fun ready => ?_
  cases ready with
  | none => exact Rpc.ensures_pure (allowed_none _)
  | some ready =>
    refine Rpc.ensures_bind fun failed => ?_
    split
    · exact Rpc.ensures_pure (allowed_none _)
    · refine (gives_providerDeferral _).bind_ensures fun deferral hdeferral => ?_
      cases deferral with
      | some deferral =>
        refine Rpc.ensures_bind fun found => ?_
        cases found with
        | none => exact Rpc.ensures_pure (allowed_none _)
        | some state => exact Rpc.ensures_pure hdeferral
      | none =>
        refine Rpc.ensures_bind fun _ => Rpc.ensures_bind fun answer => ?_
        refine ensures_checkDeferral_bind _ (fun hallowed => ?_) ?_
        · exact ensures_reconciled hallowed ready.2 _ answer.state.raw fun _ => rfl
        · exact (Rpc.adds_reconcile_unless_failed ready.2 _ answer.state.raw
            fun state => DataResult.mk state answer.deferred).mono fun _ _ => trivial

theorem ensures_openEphemeral (r : OpenRequest) :
    Rpc.Ensures (fun result => Allowed r.client result.deferred)
      (openEphemeral r : Rpc σ δ OpenResult) := by
  unfold openEphemeral
  refine Rpc.ensures_bind fun ready => ?_
  cases ready with
  | none => exact Rpc.ensures_pure (allowed_none _)
  | some ready =>
    refine Rpc.ensures_bind fun failed => ?_
    split
    · exact Rpc.ensures_pure (allowed_none _)
    · refine (gives_providerDeferral _).bind_ensures fun deferral hdeferral => ?_
      cases deferral with
      | some deferral =>
        refine Rpc.ensures_bind fun found => ?_
        cases found with
        | none => exact Rpc.ensures_pure (allowed_none _)
        | some result => exact Rpc.ensures_pure hdeferral
      | none =>
        refine Rpc.ensures_bind fun answer => ensures_checkDeferral_bind _ (fun hallowed => ?_) ?_
        · refine Rpc.ensures_bind fun failed => ?_
          split
          · exact Rpc.ensures_pure (allowed_none _)
          · exact Rpc.ensures_bind fun _ => Rpc.ensures_pure hallowed
        · exact Rpc.adds_failed.bind fun _ => (Rpc.adds_pure _).ite
            ((Rpc.adds_encodePrivate _).bind fun _ => Rpc.adds_pure _)

/-! ## Planning -/

/-- A resource that puts its plan off is checked like any callback. -/
theorem ensures_modifyWhole (actions : Resource.Actions σ) (c : Change) {p : Planned}
    (hp : p.deferred = none) :
    Rpc.Ensures (fun q => Allowed c.client q.deferred)
      (modifyWhole actions c p : Rpc σ δ Planned) := by
  unfold modifyWhole
  split
  · exact Rpc.ensures_pure (hp ▸ allowed_none c.client)
  · exact Rpc.ensures_bind fun answer => ensures_checkDeferral_bind _
      (fun hallowed => Rpc.ensures_pure hallowed) (Rpc.adds_pure _)

theorem ensures_planStages_allowed (actions : Resource.Actions σ) (schema : ActiveSchema σ)
    (c : Change) (prior : PrivateState) :
    Rpc.Ensures (fun p => Allowed c.client p.deferred)
      (planStages actions schema c prior : Rpc σ δ Planned) := by
  unfold planStages
  dsimp only
  refine Rpc.ensures_bind fun _ => ?_
  split
  · exact Rpc.ensures_pure (allowed_none _)
  · refine (gives_providerDeferral _).bind_ensures fun deferral hdeferral => ?_
    cases deferral with
    | some deferral => exact Rpc.ensures_pure hdeferral
    | none =>
      refine (gives_modifyAttributes schema c _).bind_ensures fun p hp => ?_
      have hnone : p.deferred = none := hp.2
      refine Rpc.ensures_bind fun failed => ?_
      split
      · exact Rpc.ensures_pure (hnone ▸ allowed_none c.client)
      · refine (ensures_modifyWhole actions c hnone).bind (fun q hq f _ => ?_)
          fun q _ => adds_checkedPlan c q
        have hchecked := (gives_checkedPlan c q f).2
        exact (congrArg (Allowed c.client) hchecked).mpr hq

theorem gives_requestedChange_client (schema : PlainSchema) (r : PlanRequest) :
    Rpc.Gives (fun change => ∀ c, change = some c → c.client = r.client)
      (requestedChange schema r : Rpc σ δ (Option Change)) := by
  refine Rpc.gives_bind fun config => Rpc.gives_bind fun prior => Rpc.gives_bind fun proposed =>
    Rpc.gives_bind fun providerMeta => ?_
  split
  · refine Rpc.gives_pure ?_
    rintro c ⟨⟩
    rfl
  · refine Rpc.gives_pure ?_
    rintro c ⟨⟩

theorem ensures_planResource_allowed (r : PlanRequest) :
    Rpc.Ensures (fun result => Allowed r.client result.deferred)
      (planResource r : Rpc σ δ PlanResult) := by
  unfold planResource
  refine Rpc.ensures_bind fun ready => ?_
  cases ready with
  | none => exact Rpc.ensures_pure (allowed_none _)
  | some ready =>
    refine Rpc.ensures_bind fun failed => ?_
    split
    · exact Rpc.ensures_pure (allowed_none _)
    · refine Rpc.ensures_bind fun prior => Rpc.ensures_bind fun failed => ?_
      split
      · exact Rpc.ensures_pure (allowed_none _)
      · refine (gives_requestedChange_client _ r).bind_ensures fun change hclient => ?_
        cases change with
        | none => exact Rpc.ensures_pure (allowed_none _)
        | some c =>
          rw [← hclient c rfl]
          refine (ensures_planStages_allowed _ _ c prior).bind (fun p hp => ?_) fun p _ => ?_
          · exact Rpc.ensures_bind fun _ => Rpc.ensures_pure hp
          · exact (Rpc.adds_threadPrivate _ _ _).bind fun _ => Rpc.adds_pure _

/-! ## Any request -/

theorem ensures_serving_allowed {request : Request} {client : ClientCapabilities}
    (hcaller : request.caller? = some client) :
    Rpc.Ensures (fun result => Allowed client result.deferred?)
      (serving request : Rpc σ δ Result) := by
  intro f hok
  cases request <;> cases hcaller
  case readResource r => exact ensures_readResource r f hok
  case planResource r => exact ensures_planResource_allowed r f hok
  case importResource r => exact ensures_importResource r f hok
  case readDataSource r => exact ensures_readDataSource r f hok
  case openEphemeral r => exact ensures_openEphemeral r f hok

/-- Whatever a server was configured with and its provider does, an answer without an error is put
off only for a caller that can deal with that. -/
theorem put_off_only_if_allowed (server : Server σ δ) (world : σ) (request : Request)
    (client : ClientCapabilities) (hcaller : request.caller? = some client) :
    let answer := (serve server request world).1.1
    Diagnostics.hasError answer.diagnostics = false →
    ∀ deferral, answer.result.deferred? = some deferral → client.deferralAllowed = true := by
  intro answer hok deferral hdeferred
  have hallowed := ensures_serving_allowed (σ := σ) (δ := δ) hcaller _ hok
  exact hallowed (hdeferred ▸ rfl)

/-- The actions of a resource that waits for another one before it can be read. -/
def blockedActions (σ : Type) : Resource.Actions σ :=
  { idleActions σ with
    read := fun r => pure { r.start with deferred := some .absentPrereq } }

/-- A refresh that the resource puts off is answered so for one caller, and refused for another. -/
theorem blocked_refresh_only_if_allowed :
    let refreshed (client : ClientCapabilities) : Answer Unit Result :=
      (serve (actingServer namedSchema (blockedActions Nat))
        (.readResource { namedRefresh [] with client := client }) 0).1.1
    Diagnostics.hasError (refreshed ⟨false⟩).diagnostics = true ∧
      Diagnostics.hasError (refreshed ⟨true⟩).diagnostics = false ∧
      (refreshed ⟨true⟩).result.deferred? = some .absentPrereq ∧
      (⟨true⟩ : ClientCapabilities).deferralAllowed = true := by
  refine ⟨rfl, rfl, rfl, ?_⟩
  exact put_off_only_if_allowed (actingServer namedSchema (blockedActions Nat)) 0
    (.readResource { namedRefresh [] with client := ⟨true⟩ }) ⟨true⟩ rfl rfl .absentPrereq rfl

end Server

end ProviderKit
