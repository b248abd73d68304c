import ProviderKit.Proofs.Server.Presence
import ProviderKit.Server.Read

-- What is left of a resource when refreshing or deleting it fails. If the provider was asked,
-- the answer has what it left; if something was wrong before that, the answer has no state.

namespace ProviderKit.Server

variable {σ δ : Type}

/-- The callback, on the instance that a request gets, leaves this state. -/
inductive Leaves (f : Frame σ δ) (typeName : String) : Callback δ → Value → Prop
  | read {actions : Resource.Actions σ} {schema : ActiveSchema σ} {g : Frame σ δ}
      (hfresh : freshResource typeName f = (some (actions, schema), g))
      (request : Resource.ReadRequest) :
      Leaves f typeName (.read request) (actions.read request g.world).1.state.raw
  | delete {actions : Resource.Actions σ} {schema : ActiveSchema σ} {g : Frame σ δ}
      (hfresh : freshResource typeName f = (some (actions, schema), g))
      (request : Resource.DeleteRequest) :
      Leaves f typeName (.delete request) (actions.delete request g.world).1.state.raw

/-- How an operation on a resource ends: the provider was not asked for it and there is no state,
or there is no error, or the provider was asked and any error leaves the state that it left. -/
inductive Outcome (IsIt : Callback δ → Prop) (typeName : String) (f : Frame σ δ) (state : Value)
    (g : Frame σ δ) : Prop
  | unasked (hadds : f.Adds Callback.IsAside g) (hstate : state = .null)
  | unfailed (hok : Diagnostics.hasError g.diagnostics = false)
  | carriedOut {c : Call δ} {left : Value} (hc : c ∈ g.calls) (hit : IsIt c.callback)
      (hleaves : Leaves f typeName c.callback left)
      (hstate : Diagnostics.hasError g.diagnostics = true → state = left)

/-- So an operation that fails keeps the state that the provider left alone, if it was asked. -/
theorem Outcome.keeps_iff {IsIt : Callback δ → Prop} {typeName : String} {f g : Frame σ δ}
    {state kept : Value} (h : Outcome IsIt typeName f state g) (hstart : f.calls = [])
    (hoperation : ∀ callback, IsIt callback → callback.isOperation = true)
    (hkept : kept.isNull = false) (herror : Diagnostics.hasError g.diagnostics = true)
    (hleft : ∀ c ∈ g.calls, ∀ v, Leaves f typeName c.callback v → v = kept) :
    (state = kept ↔ ∃ c ∈ g.calls, IsIt c.callback) ∧
      (state = .null ↔ ¬ ∃ c ∈ g.calls, IsIt c.callback) := by
  have hne : kept ≠ .null := by
    intro hnull
    rw [hnull] at hkept
    cases hkept
  cases h with
  | unasked hadds hstate =>
    have hnone : ¬ ∃ c ∈ g.calls, IsIt c.callback := by
      rintro ⟨c, hc, hit⟩
      rcases hadds.mem_calls hc with hmem | haside
      · rw [hstart] at hmem
        cases hmem
      · exact Bool.noConfusion ((hoperation _ hit).symm.trans haside)
    subst hstate
    exact ⟨iff_of_false hne.symm hnone, iff_of_true rfl hnone⟩
  | unfailed hok =>
    rw [hok] at herror
    cases herror
  | carriedOut hc hit hleaves hstate =>
    have hkeeps : state = kept := (hstate herror).trans (hleft _ hc _ hleaves)
    subst hkeeps
    exact ⟨iff_of_true rfl ⟨_, hc, hit⟩, iff_of_false hne fun h => h ⟨_, hc, hit⟩⟩

/-! ## Refreshing -/

def IsRead (callback : Callback δ) : Prop := ∃ request, callback = .read request

/-- What the provider is asked when a resource is refreshed. -/
def refreshRequest (r : ReadRequest) (schema : ActiveSchema σ) (current : Value)
    (f : Frame σ δ) : Resource.ReadRequest :=
  ⟨⟨current, schema.plain⟩, (PrivateState.decode r.privateBytes).1.provider,
    ⟨r.providerMeta.getD .null, f.server.metaSchema⟩, r.client⟩

/-- After the provider has read a resource, an error leaves the state as the provider did. -/
theorem refreshed_rest (r : ReadRequest) (schema : ActiveSchema σ) (current : Value)
    (prior : PrivateState) (answer : Resource.Refreshed) :
    let rest : Rpc σ δ ReadResult := do
      checkDeferral "Resource" r.client answer.deferred
      let privateBytes ←
        Rpc.threadPrivate r.privateBytes prior { prior with provider := answer.privateData }
      let found : ReadResult := ⟨answer.state.raw, privateBytes, answer.deferred⟩
      if ← Rpc.failed then return found
      let state ← Rpc.reconcile schema current found.state
      return { found with state := state }
    Rpc.OnError (fun result => result.state = answer.state.raw) rest ∧
      Rpc.Adds Callback.IsAside rest := by
  refine ⟨?_, ?_⟩
  · refine Rpc.onError_bind fun _ => Rpc.onError_bind fun privateBytes => ?_
    refine Rpc.onError_failed_bind (Rpc.onError_pure rfl) fun f hf herror => ?_
    exact Rpc.reconcile_of_hasError hf herror
  · refine ((Rpc.adds_report _).ite (Rpc.adds_pure _)).bind fun _ => ?_
    refine (Rpc.adds_threadPrivate _ _ _).bind fun privateBytes => ?_
    exact Rpc.adds_reconcile_unless_failed schema current answer.state.raw
      fun state => ReadResult.mk state privateBytes answer.deferred

theorem readResource_outcome {r : ReadRequest} {current : Value}
    (hcurrent : r.currentState = some current) (f : Frame σ δ) :
    Outcome IsRead r.typeName f (readResource r f).1.state (readResource r f).2 := by
  unfold readResource
  rw [hcurrent]
  dsimp only
  rw [rpc_bind]
  cases hfresh : freshResource r.typeName f with
  | mk ready g =>
  have hadds := adds_of_freshResource hfresh
  cases ready with
  | none => exact .unasked hadds rfl
  | some ready =>
    obtain ⟨actions, schema⟩ := ready
    dsimp only
    rw [decodePrivate_bind_failed]
    split
    · next hok =>
      rw [if_neg (by simp), rpc_bind]
      cases hdeferral : (providerDeferral r.client g).1 with
      | some deferred => exact .unfailed hok.1
      | none =>
        -- The call is noted first, and what follows only adds to the frame.
        obtain ⟨hleft, hrest⟩ := refreshed_rest (δ := δ) r schema current
          (PrivateState.decode r.privateBytes).1
          (actions.read (refreshRequest r schema current g) g.world).1
        exact .carriedOut (hrest _ |>.mem_of_mem (Rpc.mem_calls_call _ _ _ _))
          ⟨refreshRequest r schema current g, rfl⟩ (.read hfresh _) (hleft _)
    · exact .unasked (hadds.trans (Rpc.adds_report _ g)) rfl

/-! ## Deleting -/

def IsDelete (callback : Callback δ) : Prop := ∃ request, callback = .delete request

/-- What the provider is asked when a resource is deleted. -/
def deletionRequest (r : ApplyRequest) (p : Prepared σ) (f : Frame σ δ) : Resource.DeleteRequest :=
  ⟨⟨r.priorState.getD .null, p.schema.plain⟩, ⟨r.providerMeta.getD .null, f.server.metaSchema⟩,
    p.privateState.provider⟩

/-- After the provider has deleted a resource, an error leaves the state as the provider did. No
error comes from storing private state, where there would be none. -/
theorem deleted_rest {p : Prepared σ} (hstorable : p.privateState.IsStorable)
    (answer : Resource.Changed) :
    let rest : Rpc σ δ ApplyResult := do
      let state := if ← Rpc.failed then answer.state.raw else .null
      return ⟨state, ← storedPrivate p answer⟩
    Rpc.OnError (fun result => result.state = answer.state.raw) rest ∧
      Rpc.Adds Callback.IsAside rest := by
  refine ⟨?_, Rpc.adds_failed.bind fun _ => (Rpc.adds_encodePrivate _).bind fun _ =>
    Rpc.adds_pure _⟩
  refine Rpc.onError_failed_bind (Rpc.onError_bind fun _ => Rpc.onError_pure rfl) ?_
  intro f hf herror
  -- Without an error by then the state is null, so this must not add one.
  have hstored := encodePrivate_of_isStorable (s := { p.privateState with
    provider := answer.privateData }) hstorable f
  rw [rpc_bind, storedPrivate, hstored] at herror
  exact absurd (hf.symm.trans herror) Bool.false_ne_true

theorem deleteResource_outcome (r : ApplyRequest) (f : Frame σ δ) :
    Outcome IsDelete r.typeName f (deleteResource r f).1.state (deleteResource r f).2 := by
  unfold deleteResource
  rw [rpc_bind]
  cases hprepare : (prepare r f).1 with
  | none => exact .unasked (adds_prepare r f) rfl
  | some p =>
    obtain ⟨hfresh, -, hprivate⟩ := freshResource_of_prepare hprepare
    have hstorable : p.privateState.IsStorable :=
      hprivate ▸ PrivateState.isStorable_decode r.privateBytes
    obtain ⟨hleft, hrest⟩ := deleted_rest (δ := δ) hstorable
      (p.actions.delete (deletionRequest r p (prepare r f).2) (prepare r f).2.world).1
    exact .carriedOut (hrest _ |>.mem_of_mem (Rpc.mem_calls_call _ _ _ _))
      ⟨deletionRequest r p (prepare r f).2, rfl⟩ (.delete hfresh _) (hleft _)

/-! ## Failures -/

/-- A refresh or a delete that fails, where the provider left the state if it was asked: the
answer has that state exactly if the provider was asked, and none otherwise. -/
theorem failure_keeps_state_iff_asked (server : Server σ δ) (world : σ) :
    (∀ (r : ReadRequest) (current : Value), r.currentState = some current →
      current.isNull = false →
      let answer := ((readResource r).run server world).1.1
      Diagnostics.hasError answer.diagnostics = true →
      (∀ c ∈ answer.calls, ∀ left, Leaves ⟨world, server, [], []⟩ r.typeName c.callback left →
        left = current) →
      (answer.result.state = current ↔ ∃ c ∈ answer.calls, IsRead c.callback) ∧
        (answer.result.state = .null ↔ ¬ ∃ c ∈ answer.calls, IsRead c.callback)) ∧
    ∀ r : ApplyRequest, (r.priorState.getD .null).isNull = false →
      (r.plannedState.getD .null).isNull = true →
      let answer := ((applyResource r).run server world).1.1
      Diagnostics.hasError answer.diagnostics = true →
      (∀ c ∈ answer.calls, ∀ left, Leaves ⟨world, server, [], []⟩ r.typeName c.callback left →
        left = r.priorState.getD .null) →
      (answer.result.state = r.priorState.getD .null ↔
          ∃ c ∈ answer.calls, IsDelete c.callback) ∧
        (answer.result.state = .null ↔ ¬ ∃ c ∈ answer.calls, IsDelete c.callback) := by
  refine ⟨fun r current hcurrent hkept herror hleft => ?_,
    fun r hkept hplanned herror hleft => ?_⟩
  · exact (readResource_outcome hcurrent _).keeps_iff rfl
      (fun callback ⟨_, h⟩ => h ▸ rfl) hkept herror hleft
  · have hdelete : applyResource (σ := σ) (δ := δ) r = deleteResource r := by
      unfold applyResource
      rw [hkept, hplanned]
    rw [hdelete] at herror hleft ⊢
    exact (deleteResource_outcome r _).keeps_iff rfl
      (fun callback ⟨_, h⟩ => h ▸ rfl) hkept herror hleft

/-- The actions of a resource whose remote object cannot be reached. -/
def cutOffActions (σ : Type) : Resource.Actions σ :=
  let unreachable : Diagnostic := .error "Unreachable" "The remote object does not answer."
  { idleActions σ with
    read := fun r => pure { r.start with diagnostics := [unreachable] }
    delete := fun r => pure { r.start with diagnostics := [unreachable] } }

def cutOffServer : Server Nat Unit :=
  let provider := loneProvider namedSchema
  let cutOff : Resource Nat Unit → Resource Nat Unit := fun r =>
    { r with actions := cutOffActions Nat }
  (Server.start { provider with resources := do return (← provider.resources).map (cutOff <$> ·) }
    .standard 0).1

/-- A refresh of the named thing with certain private state. -/
def namedRefresh (privateBytes : Bytes) : ReadRequest where
  typeName := "lone_thing"
  currentState := some namedState
  privateBytes := privateBytes
  providerMeta := none
  client := .standard

theorem cutOff_keeps_namedState :
    let refreshed := ((readResource (namedRefresh [])).run cutOffServer 0).1.1
    let deleted := ((applyResource (namedChange (some namedState) none)).run cutOffServer 0).1.1
    Diagnostics.hasError refreshed.diagnostics = true ∧ refreshed.result.state = namedState ∧
      Diagnostics.hasError deleted.diagnostics = true ∧ deleted.result.state = namedState := by
  obtain ⟨hread, hdelete⟩ := failure_keeps_state_iff_asked cutOffServer 0
  refine ⟨rfl, (hread (namedRefresh []) namedState rfl rfl rfl ?_).1.mpr ?_, rfl,
    (hdelete (namedChange (some namedState) none) rfl rfl rfl ?_).1.mpr ?_⟩
  · intro c hc left hleaves
    cases List.mem_singleton.mp hc
    cases hleaves with
    | read hfresh request =>
      cases hfresh
      rfl
  · exact ⟨_, List.mem_cons_self, _, rfl⟩
  · intro c hc left hleaves
    cases List.mem_singleton.mp hc
    cases hleaves with
    | delete hfresh request =>
      cases hfresh
      rfl
  · exact ⟨_, List.mem_cons_self, _, rfl⟩

/-- Private state that cannot be decoded is an error before the provider is asked. -/
theorem undecodable_loses_namedState :
    let refreshed := ((readResource (namedRefresh [120])).run (loneServer namedSchema) 0).1.1
    let deleted := ((applyResource { namedChange (some namedState) none with
      privateBytes := [120] }).run (loneServer namedSchema) 0).1.1
    namedState.isNull = false ∧
      (Diagnostics.hasError refreshed.diagnostics = true ∧ refreshed.calls.isEmpty = true ∧
        refreshed.result.state.isNull = true) ∧
      Diagnostics.hasError deleted.diagnostics = true ∧ deleted.calls.isEmpty = true ∧
        deleted.result.state.isNull = true := by
  decide +kernel

end ProviderKit.Server
