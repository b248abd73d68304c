import ProviderKit.Proofs.Server.Asides
import ProviderKit.Proofs.Server.Retention
import ProviderKit.Server.Serve

-- What data of its own a provider has once a request is served. The last of its code to run leaves
-- it, and a plan that ends without an error has changed nothing else of private state.

namespace ProviderKit.Server

variable {σ δ : Type}

/-! ## What the provider is asked -/

/-- What the provider is asked when a resource is created. -/
def creationRequest (r : ApplyRequest) (p : Prepared σ) (f : Frame σ δ) : Resource.CreateRequest :=
  ⟨⟨r.config.getD .null, p.schema.plain⟩, ⟨r.plannedState.getD .null, p.schema.plain⟩,
    ⟨r.providerMeta.getD .null, f.server.metaSchema⟩, p.privateState.provider⟩

/-- What the provider is asked when a resource is updated. -/
def updateRequest (r : ApplyRequest) (p : Prepared σ) (f : Frame σ δ) : Resource.UpdateRequest where
  config := ⟨r.config.getD .null, p.schema.plain⟩
  plan := ⟨r.plannedState.getD .null, p.schema.plain⟩
  state := ⟨r.priorState.getD .null, p.schema.plain⟩
  providerMeta := ⟨r.providerMeta.getD .null, f.server.metaSchema⟩
  privateData := p.privateState.provider

/-- The change that a request asks for, once both of its states are looked at. -/
def ApplyRequest.change? (r : ApplyRequest) : Option Request :=
  match (r.priorState.getD .null).isNull, (r.plannedState.getD .null).isNull with
  | true, false => some (.createResource r)
  | false, false => some (.updateResource r)
  | false, true => some (.deleteResource r)
  | true, true => none

/-- A plan before any of the provider's code has run. -/
def draftedPlan (c : Change) (prior : PrivateState) : Planned :=
  ⟨{ c.proposed with raw := (draft c).1 }, [], prior, none⟩

/-- What a resource is asked about a plan as a whole. -/
def wholeRequest (c : Change) (p : Planned) : Resource.ModifyPlanRequest where
  config := c.config
  plan := p.plan
  state := c.prior
  providerMeta := c.providerMeta
  privateData := p.privateState.provider
  client := c.client
  requiresReplace := p.requiresReplace

/-! ## What it leaves -/

/-- The data that the provider has once a change is planned: what the last of its code to run has
left, be it the resource or a modifier of an attribute. -/
inductive PlanLeaves (actions : Resource.Actions σ) (schema : ActiveSchema σ) (c : Change)
    (prior : PrivateState) (f : Frame σ δ) : ProviderData → Prop
  | putOff {deferral : Deferral} (hdeferral : (providerDeferral c.client f).1 = some deferral) :
      PlanLeaves actions schema c prior f prior.provider
  | attributes {p : Planned} {g : Frame σ δ} (hdeferral : (providerDeferral c.client f).1 = none)
      (hattributes : modifyAttributes schema c (draftedPlan c prior) f = (p, g))
      (hwhole : actions.modifyPlan = none) :
      PlanLeaves actions schema c prior f p.privateState.provider
  | whole {p : Planned} {g : Frame σ δ}
      {modifyPlan : Resource.ModifyPlanRequest → StateM σ Resource.PlanModified}
      (hdeferral : (providerDeferral c.client f).1 = none)
      (hattributes : modifyAttributes schema c (draftedPlan c prior) f = (p, g))
      (hwhole : actions.modifyPlan = some modifyPlan) :
      PlanLeaves actions schema c prior f (modifyPlan (wholeRequest c p) g.world).1.privateData

/-- The data that the provider has in the end, when a request is served. -/
inductive LeavesData (f : Frame σ δ) : Request → ProviderData → Prop
  | plan {r : PlanRequest} {actions : Resource.Actions σ} {schema : ActiveSchema σ}
      {g h : Frame σ δ} {c : Change} {data : ProviderData}
      (hfresh : freshResource r.typeName f = (some (actions, schema), g))
      (hchange : requestedChange schema.plain r g = (some c, h))
      (hleaves : PlanLeaves actions schema c (PrivateState.decode r.privateBytes).1 h data) :
      LeavesData f (.planResource r) data
  | putOff {r : ReadRequest} {actions : Resource.Actions σ} {schema : ActiveSchema σ}
      {g : Frame σ δ} {deferral : Deferral}
      (hfresh : freshResource r.typeName f = (some (actions, schema), g))
      (hdeferral : (providerDeferral r.client g).1 = some deferral) :
      LeavesData f (.readResource r) (PrivateState.decode r.privateBytes).1.provider
  | read {r : ReadRequest} {current : Value} {actions : Resource.Actions σ}
      {schema : ActiveSchema σ} {g : Frame σ δ} (hcurrent : r.currentState = some current)
      (hfresh : freshResource r.typeName f = (some (actions, schema), g))
      (hdeferral : (providerDeferral r.client g).1 = none) :
      LeavesData f (.readResource r)
        (actions.read (refreshRequest r schema current g) g.world).1.privateData
  | create {r : ApplyRequest} {p : Prepared σ} {g : Frame σ δ}
      (hprepare : prepare r f = (some p, g)) :
      LeavesData f (.createResource r) (p.actions.create (creationRequest r p g) g.world).1.privateData
  | update {r : ApplyRequest} {p : Prepared σ} {g : Frame σ δ}
      (hprepare : prepare r f = (some p, g)) :
      LeavesData f (.updateResource r) (p.actions.update (updateRequest r p g) g.world).1.privateData
  | delete {r : ApplyRequest} {p : Prepared σ} {g : Frame σ δ}
      (hprepare : prepare r f = (some p, g)) :
      LeavesData f (.deleteResource r) (p.actions.delete (deletionRequest r p g) g.world).1.privateData
  | apply {r : ApplyRequest} {change : Request} {data : ProviderData}
      (hchange : r.change? = some change) (hleaves : LeavesData f change data) :
      LeavesData f (.applyResource r) data
  | renew {r : OpenedRequest} {actions : EphemeralResource.Actions σ} {s : PrivateState}
      {renew : ProviderData → StateM σ EphemeralResource.Renewed} {g : Frame σ δ}
      (hheld : heldEphemeral r f = (some (actions, s), g)) (hrenew : actions.renew = some renew) :
      LeavesData f (.renewEphemeral r) (renew s.provider g.world).1.privateData

theorem PlanLeaves.unique {actions : Resource.Actions σ} {schema : ActiveSchema σ} {c : Change}
    {prior : PrivateState} {f : Frame σ δ} {d e : ProviderData}
    (hd : PlanLeaves actions schema c prior f d) (he : PlanLeaves actions schema c prior f e) :
    d = e := by
  cases hd with
  | putOff hdeferral =>
    cases he with
    | putOff => rfl
    | attributes hdeferral' => cases hdeferral.symm.trans hdeferral'
    | whole hdeferral' => cases hdeferral.symm.trans hdeferral'
  | attributes hdeferral hattributes hwhole =>
    cases he with
    | putOff hdeferral' => cases hdeferral.symm.trans hdeferral'
    | attributes _ hattributes' =>
      cases hattributes.symm.trans hattributes'
      rfl
    | whole _ _ hwhole' => cases hwhole.symm.trans hwhole'
  | whole hdeferral hattributes hwhole =>
    cases he with
    | putOff hdeferral' => cases hdeferral.symm.trans hdeferral'
    | attributes _ _ hwhole' => cases hwhole.symm.trans hwhole'
    | whole _ hattributes' hwhole' =>
      cases hattributes.symm.trans hattributes'
      cases hwhole.symm.trans hwhole'
      rfl

/-- There is only one such data. -/
theorem LeavesData.unique {f : Frame σ δ} {request : Request} {d e : ProviderData}
    (hd : LeavesData f request d) (he : LeavesData f request e) : d = e := by
  induction hd with
  | plan hfresh hchange hleaves =>
    cases he with
    | plan hfresh' hchange' hleaves' =>
      cases hfresh.symm.trans hfresh'
      cases hchange.symm.trans hchange'
      exact hleaves.unique hleaves'
  | putOff hfresh hdeferral =>
    cases he with
    | putOff => rfl
    | read _ hfresh' hdeferral' =>
      cases hfresh.symm.trans hfresh'
      cases hdeferral.symm.trans hdeferral'
  | read hcurrent hfresh hdeferral =>
    cases he with
    | putOff hfresh' hdeferral' =>
      cases hfresh.symm.trans hfresh'
      cases hdeferral.symm.trans hdeferral'
    | read hcurrent' hfresh' _ =>
      cases hcurrent.symm.trans hcurrent'
      cases hfresh.symm.trans hfresh'
      rfl
  | create hprepare =>
    cases he with
    | create hprepare' =>
      cases hprepare.symm.trans hprepare'
      rfl
  | update hprepare =>
    cases he with
    | update hprepare' =>
      cases hprepare.symm.trans hprepare'
      rfl
  | delete hprepare =>
    cases he with
    | delete hprepare' =>
      cases hprepare.symm.trans hprepare'
      rfl
  | apply hchange _ ih =>
    cases he with
    | apply hchange' he =>
      cases hchange.symm.trans hchange'
      exact ih he
  | renew hheld hrenew =>
    cases he with
    | renew hheld' hrenew' =>
      cases hheld.symm.trans hheld'
      cases hrenew.symm.trans hrenew'
      rfl

/-! ## Planning -/

theorem gives_modifyAttributes (schema : ActiveSchema σ) (c : Change) (p : Planned) :
    Rpc.Gives (fun q => q.privateState.framework = p.privateState.framework ∧
        q.deferred = p.deferred)
      (modifyAttributes schema c p : Rpc σ δ Planned) := by
  unfold modifyAttributes
  split
  · exact Rpc.gives_pure ⟨rfl, rfl⟩
  · exact Rpc.gives_bind fun _ => Rpc.gives_bind fun _ => Rpc.gives_pure ⟨rfl, rfl⟩

/-- The last stage of a plan changes at most the form of its paths. -/
theorem gives_checkedPlan (c : Change) (p : Planned) :
    Rpc.Gives (fun q => q.privateState = p.privateState ∧ q.deferred = p.deferred)
      (do
        if ← Rpc.failed then return p
        if c.proposed.isNull && !p.plan.isNull then
          Rpc.report [plannedOnDestroy]
          return p
        return { p with requiresReplace := Path.normalize p.requiresReplace } :
          Rpc σ δ Planned) := by
  refine Rpc.gives_bind fun failed => ?_
  cases failed with
  | true => exact Rpc.gives_pure ⟨rfl, rfl⟩
  | false =>
    rw [if_neg Bool.false_ne_true]
    split
    · exact Rpc.gives_bind fun _ => Rpc.gives_pure ⟨rfl, rfl⟩
    · exact Rpc.gives_pure ⟨rfl, rfl⟩

theorem isError_of_draft {c : Change} {v : Value} {d : Diagnostic} (h : draft c = (v, some d)) :
    d.isError = true := by
  unfold draft at h
  dsimp only at h
  split at h
  · cases h
  · split at h
    · cases h
      rfl
    · split at h
      · cases h
      · split at h
        · cases h
          rfl
        · cases h

/-- Modifiers and resources have their say in the provider's data only. -/
theorem planLeaves_of_stages (actions : Resource.Actions σ) {schema : ActiveSchema σ} {c : Change}
    {prior : PrivateState} {f g : Frame σ δ} {p : Planned}
    (hdeferral : (providerDeferral c.client f).1 = none)
    (hattributes : modifyAttributes schema c (draftedPlan c prior) f = (p, g)) :
    ∃ data, PlanLeaves actions schema c prior f data ∧
      (modifyWhole actions c p g).1.privateState = { prior with provider := data } := by
  have hframework := (gives_modifyAttributes schema c (draftedPlan c prior) f).1
  rw [hattributes] at hframework
  unfold modifyWhole
  cases hwhole : actions.modifyPlan with
  | none =>
    refine ⟨_, .attributes hdeferral hattributes hwhole, ?_⟩
    exact congrArg (fun framework => PrivateState.mk framework p.privateState.provider) hframework
  | some modifyPlan =>
    refine ⟨_, .whole hdeferral hattributes hwhole, ?_⟩
    exact congrArg (fun framework => PrivateState.mk framework _) hframework

/-- Where planning ends without an error, its stages have replaced the provider's data only. -/
theorem planLeaves_of_unfailed {actions : Resource.Actions σ} {schema : ActiveSchema σ} {c : Change}
    {prior : PrivateState} {f : Frame σ δ}
    (hok : Diagnostics.hasError (planStages actions schema c prior f).2.diagnostics = false) :
    ∃ data, PlanLeaves actions schema c prior f data ∧
      (planStages actions schema c prior f).1.privateState = { prior with provider := data } := by
  unfold planStages at hok ⊢
  cases hdraft : draft c with
  | mk drafted problem =>
  rw [hdraft] at hok
  cases problem with
  | some d =>
    exact Bool.noConfusion (hok.symm.trans
      (Rpc.hasError_report_bind (isError_of_draft hdraft) (Rpc.adds_pure _) f))
  | none =>
    have hdrafted : draftedPlan c prior = ⟨{ c.proposed with raw := drafted }, [], prior, none⟩ := by
      rw [draftedPlan, hdraft]
    have hframe : (providerDeferral c.client f).2 = f := rfl
    dsimp only [Option.toList] at hok ⊢
    rw [rpc_bind, Rpc.report_nil, ← hdrafted] at hok ⊢
    dsimp only at hok ⊢
    rw [if_neg (by simp), rpc_bind, hframe] at hok ⊢
    cases hdeferral : (providerDeferral c.client f).1 with
    | some deferral => exact ⟨_, .putOff hdeferral, rfl⟩
    | none =>
      rw [hdeferral] at hok
      dsimp only at hok ⊢
      rw [rpc_bind] at hok ⊢
      obtain ⟨data, hleaves, hwhole⟩ := planLeaves_of_stages actions hdeferral
        (rfl : modifyAttributes schema c (draftedPlan c prior) f = (_, _))
      obtain ⟨-, hunfailed⟩ := Rpc.failed_bind_of_unfailed hok (Rpc.adds_pure _)
      rw [hunfailed, if_neg Bool.false_ne_true, rpc_bind]
      exact ⟨data, hleaves, (gives_checkedPlan c _ _).1.trans hwhole⟩

end ProviderKit.Server
