import ProviderKit.Proofs.Plan.Unchanged
import ProviderKit.Proofs.Server.Additions
import ProviderKit.Proofs.Server.Readiness

-- Whether a change leaves a state. Without an error there is one after a create and after an
-- update, and none after a delete. Reconciling does not decide this: what it returns stays null or
-- stays something, and when a comparison fails it stays as the provider left it.

namespace ProviderKit

variable {σ δ : Type}

/-! ## Whether there is a state -/

/-- At a block no predicate is asked, so nothing decides on the value as a whole. -/
theorem Reconcile.value_block_isNull (b : Block (Behaviour σ)) (path : Path) (prior v : Value)
    (calls : List EqualityCall) (world : σ) :
    (value (.block b) path prior v calls world).1.1.isNull = v.isNull := by
  cases v
  case list xs =>
    rw [value]
    rfl
  case map es =>
    rw [value]
    cases prior <;> rfl
  all_goals
    rw [value]
    · rfl
    all_goals
      intro _ h
      cases h

theorem Schema.reconcile_isNull (s : ActiveSchema σ) (prior proposed : Value) (world : σ) :
    (s.reconcile prior proposed world).1.value.isNull = proposed.isNull :=
  Reconcile.value_block_isNull s.root .root prior proposed [] world

/-! ## Comparisons that fail -/

theorem Diagnostic.isError_orAtPath (d : Diagnostic) (path : Path) :
    (d.orAtPath path).isError = d.isError := by
  unfold orAtPath
  split <;> rfl

theorem EqualityCall.hasError_diagnostics (call : EqualityCall) :
    Diagnostics.hasError call.diagnostics = call.failed := by
  unfold diagnostics failed Diagnostics.hasError
  rw [List.any_map]
  congr
  funext d
  exact d.isError_orAtPath call.path

theorem EqualityCall.hasError_flatMap (calls : List EqualityCall) :
    Diagnostics.hasError (calls.flatMap diagnostics) = calls.any failed := by
  induction calls with
  | nil => rfl
  | cons call rest ih =>
    rw [List.flatMap_cons, Diagnostics.hasError_append, hasError_diagnostics, ih, List.any_cons]

namespace Server

namespace Rpc

theorem noteAll_diagnostics {ι : Type} (callback : ι → Callback δ) (reported : ι → Diagnostics)
    (is : List ι) (f : Frame σ δ) :
    (noteAll callback reported is f).2.diagnostics = f.diagnostics ++ is.flatMap reported := by
  induction is generalizing f with
  | nil => exact (List.append_nil _).symm
  | cons i rest ih => rw [noteAll_cons, ih, note_eq, List.flatMap_cons, List.append_assoc]

theorem reconcile_eq (schema : ActiveSchema σ) (prior proposed : Value) (f : Frame σ δ) :
    let r := (schema.reconcile prior proposed f.world).1
    (reconcile schema prior proposed f).1 =
        (if r.calls.any EqualityCall.failed then proposed else r.value) ∧
      (reconcile schema prior proposed f).2.diagnostics =
        f.diagnostics ++ r.calls.flatMap EqualityCall.diagnostics :=
  ⟨rfl, noteAll_diagnostics _ _ _ _⟩

theorem reconcile_isNull (schema : ActiveSchema σ) (prior proposed : Value) :
    Gives (fun v => v.isNull = proposed.isNull) (reconcile schema prior proposed : Rpc σ δ Value) := by
  intro f
  rw [(reconcile_eq schema prior proposed f).1]
  split
  · rfl
  · exact Schema.reconcile_isNull schema prior proposed f.world

/-- When the comparisons report an error, the state is what the provider left. -/
theorem reconcile_of_hasError {schema : ActiveSchema σ} {prior proposed : Value} {f : Frame σ δ}
    (hf : Diagnostics.hasError f.diagnostics = false)
    (h : Diagnostics.hasError (reconcile schema prior proposed f).2.diagnostics = true) :
    (reconcile schema prior proposed f).1 = proposed := by
  obtain ⟨hresult, hreported⟩ := reconcile_eq schema prior proposed f
  rw [hreported, Diagnostics.hasError_append, hf, Bool.false_or,
    EqualityCall.hasError_flatMap] at h
  rw [hresult, if_pos h]

end Rpc

end Server

end ProviderKit

namespace ProviderKit.Server

variable {σ δ : Type}

/-! ## Creating and updating -/

/-- A state that is missing is reported, and comparing it with the plan does not remove it. -/
theorem ensures_conclude (p : Prepared σ) (plan : Value) {missing : Diagnostic}
    (hmissing : missing.isError = true) (answer : Resource.Changed) :
    Rpc.Ensures (fun result => result.state.isNull = false)
      (conclude p plan missing answer : Rpc σ δ ApplyResult) := by
  refine Rpc.ensures_bind fun privateBytes => ?_
  have hadds : Rpc.Adds (fun _ => True)
      (do
        if ← Rpc.failed then return ⟨answer.state.raw, privateBytes⟩
        return ⟨← Rpc.reconcile p.schema plan answer.state.raw, privateBytes⟩ :
          Rpc σ δ ApplyResult) :=
    (Rpc.adds_reconcile_unless_failed p.schema plan answer.state.raw
      fun state => ApplyResult.mk state privateBytes).mono fun _ _ => trivial
  refine Rpc.ensures_failed_bind ?_ ?_
  · cases hnull : answer.state.raw.isNull with
    | true => exact Rpc.ensures_report_bind hmissing hadds
    | false =>
      refine Rpc.ensures_failed_bind ?_ (Rpc.adds_pure _)
      exact (Rpc.reconcile_isNull _ _ _).bind_ensures fun state hstate =>
        Rpc.ensures_pure (hstate.trans hnull)
  · exact hadds

/-- Where a change needs an instance, only what is done with one has to ensure anything. -/
theorem ensures_prepare_bind {R : ApplyResult → Prop} (r : ApplyRequest)
    {next : Option (Prepared σ) → Rpc σ δ ApplyResult} (hnone : next none = pure .none)
    (hnext : ∀ p, Rpc.Ensures R (next (some p))) : Rpc.Ensures R (prepare r >>= next) :=
  (ensures_prepare r).bind_some (hnone ▸ Rpc.adds_pure _) hnext

theorem ensures_createResource (r : ApplyRequest) :
    Rpc.Ensures (fun result => result.state.isNull = false)
      (createResource r : Rpc σ δ ApplyResult) :=
  ensures_prepare_bind r rfl fun p => Rpc.ensures_bind fun _ => Rpc.ensures_bind fun answer =>
    ensures_conclude p _ rfl answer

theorem ensures_updateResource (r : ApplyRequest) :
    Rpc.Ensures (fun result => result.state.isNull = false)
      (updateResource r : Rpc σ δ ApplyResult) :=
  ensures_prepare_bind r rfl fun p => Rpc.ensures_bind fun _ => Rpc.ensures_bind fun answer =>
    ensures_conclude p _ rfl answer

/-! ## Deleting -/

theorem ensures_deleteResource (r : ApplyRequest) :
    Rpc.Ensures (fun result => result.state.isNull = true)
      (deleteResource r : Rpc σ δ ApplyResult) := by
  refine ensures_prepare_bind r rfl fun p => Rpc.ensures_bind fun _ => Rpc.ensures_bind
    fun answer => Rpc.ensures_failed_bind ?_ ?_
  · exact Rpc.ensures_bind fun _ => Rpc.ensures_pure rfl
  · exact (Rpc.adds_encodePrivate _).bind fun _ => Rpc.adds_pure _

/-! ## Any change -/

theorem ensures_applyResource (r : ApplyRequest) :
    Rpc.Ensures (fun result => result.state.isNull = (r.plannedState.getD .null).isNull)
      (applyResource r : Rpc σ δ ApplyResult) := by
  unfold applyResource
  cases (r.priorState.getD .null).isNull <;> cases (r.plannedState.getD .null).isNull
  · exact ensures_updateResource r
  · exact ensures_deleteResource r
  · exact ensures_createResource r
  · exact Rpc.ensures_report_bind rfl (Rpc.adds_pure _)

/-- Without an error, a change leaves no state exactly where none was planned. Where there was
none before either, it is refused and nothing of the provider is called. -/
theorem applyResource_leaves_planned (r : ApplyRequest) (server : Server σ δ) (world : σ) :
    let answer := ((applyResource r).run server world).1.1
    (Diagnostics.hasError answer.diagnostics = false →
      (answer.result.state.isNull = true ↔ (r.plannedState.getD .null).isNull = true)) ∧
    ((r.priorState.getD .null).isNull = true → (r.plannedState.getD .null).isNull = true →
      Diagnostics.hasError answer.diagnostics = true ∧ answer.calls = [] ∧
        ((applyResource r).run server world).2 = world) := by
  refine ⟨fun hok => ?_, fun hprior hplanned => ?_⟩
  · exact Bool.eq_iff_iff.mp (ensures_applyResource r _ hok)
  · have hrefused : applyResource (σ := σ) (δ := δ) r = do
        Rpc.report [unhandledChange]
        return .none := by
      unfold applyResource
      rw [hprior, hplanned]
    rw [hrefused]
    exact ⟨rfl, rfl, rfl⟩

/-- A change of the named thing of which some states may be missing. -/
def namedChange (prior planned : Option Value) : ApplyRequest where
  typeName := "lone_thing"
  priorState := prior
  plannedState := planned
  config := planned
  privateBytes := []
  providerMeta := none

theorem namedChange_leaves_planned :
    let answer (prior planned : Option Value) : Answer Unit ApplyResult :=
      ((applyResource (namedChange prior planned)).run (loneServer namedSchema) 0).1.1
    (Diagnostics.hasError (answer (some namedState) (some namedState)).diagnostics = false ∧
      (answer (some namedState) (some namedState)).result.state.isNull = false) ∧
    (Diagnostics.hasError (answer (some namedState) none).diagnostics = false ∧
      (answer (some namedState) none).result.state.isNull = true) ∧
    Diagnostics.hasError (answer none (some .null)).diagnostics = true ∧
      (answer none (some .null)).calls = [] := by
  have hplanned (prior planned : Option Value) :=
    applyResource_leaves_planned (namedChange prior planned) (loneServer namedSchema) 0
  refine ⟨⟨rfl, ?_⟩, ⟨rfl, ((hplanned _ none).1 rfl).mpr rfl⟩, ?_⟩
  · have hiff := (hplanned (some namedState) (some namedState)).1 rfl
    exact Bool.eq_false_iff.mpr fun h => Bool.noConfusion (hiff.mp h)
  · obtain ⟨hfails, hcalls, _⟩ := (hplanned none (some .null)).2 rfl rfl
    exact ⟨hfails, hcalls⟩

end ProviderKit.Server
