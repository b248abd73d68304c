import ProviderKit.Proofs.Value.Contents
import ProviderKit.Proofs.Server.Presence
import ProviderKit.Trial.Tester

-- Destroying a resource, from the plan to the end of a trial. A plan that was asked for nothing
-- plans nothing, whatever the provider does to it, so what is applied is a delete, and a delete
-- leaves no state.

namespace ProviderKit

variable {σ δ α γ : Type}

namespace Server

/-! ## Planning a destroy -/

theorem gives_normalized_null (schema : PlainSchema) {v : Option Value}
    (hnull : (v.getD .null).isNull = true) :
    Rpc.Gives (fun filled => filled = some .null)
      (normalized schema v : Rpc σ δ (Option Value)) := by
  intro f
  rw [normalized, Value.eq_null_of_isNull hnull]
  rfl

/-- A request to destroy proposes nothing. -/
theorem gives_requestedChange (schema : PlainSchema) {r : PlanRequest}
    (hnull : (r.proposedState.getD .null).isNull = true) :
    Rpc.Gives (fun change => ∀ c, change = some c → c.proposed.isNull = true)
      (requestedChange schema r : Rpc σ δ (Option Change)) := by
  refine Rpc.gives_bind fun config => Rpc.gives_bind fun prior => ?_
  refine (gives_normalized_null schema hnull).bind fun proposed hproposed => ?_
  subst hproposed
  refine Rpc.gives_bind fun providerMeta => ?_
  split
  · next hsome =>
    cases hsome
    refine Rpc.gives_pure ?_
    intro c hc
    cases hc
    rfl
  · refine Rpc.gives_pure ?_
    intro c hc
    cases hc

theorem draft_of_isNull {c : Change} (hnull : c.proposed.isNull = true) :
    draft c = (c.proposed.raw, none) := by
  rw [draft, if_pos hnull]

theorem modifyAttributes_of_isNull (schema : ActiveSchema σ) (c : Change) {p : Planned}
    (hnull : p.plan.isNull = true) :
    (modifyAttributes schema c p : Rpc σ δ Planned) = pure p := by
  rw [modifyAttributes, if_pos hnull]

/-- What the resource makes of the plan is checked after all stages. -/
theorem ensures_planStages (actions : Resource.Actions σ) (schema : ActiveSchema σ) {c : Change}
    (hnull : c.proposed.isNull = true) (prior : PrivateState) :
    Rpc.Ensures (fun p => p.plan.isNull = true)
      (planStages actions schema c prior : Rpc σ δ Planned) := by
  unfold planStages
  rw [draft_of_isNull hnull]
  refine Rpc.ensures_bind fun _ => Rpc.ensures_bind fun deferral => ?_
  cases deferral with
  | some deferral => exact Rpc.ensures_pure hnull
  | none =>
    dsimp only
    rw [modifyAttributes_of_isNull schema c hnull]
    refine Rpc.ensures_bind fun _ => Rpc.ensures_failed_bind ?_ (Rpc.adds_pure _)
    -- From here on the plan is what the resource made of it, and may be anything.
    refine Rpc.ensures_bind fun p => Rpc.ensures_failed_bind ?_ (Rpc.adds_pure _)
    rw [hnull]
    cases hplan : p.plan.isNull with
    | true => exact Rpc.ensures_pure hplan
    | false => exact Rpc.ensures_report_bind rfl (Rpc.adds_pure _)

theorem ensures_planResource {r : PlanRequest}
    (hnull : (r.proposedState.getD .null).isNull = true) :
    Rpc.Ensures (fun result => result.state.isNull = true)
      (planResource r : Rpc σ δ PlanResult) := by
  refine Rpc.ensures_bind fun ready => ?_
  cases ready with
  | none => exact Rpc.ensures_pure rfl
  | some ready =>
    refine Rpc.ensures_failed_bind ?_ (Rpc.adds_pure _)
    refine Rpc.ensures_bind fun prior => Rpc.ensures_failed_bind ?_ (Rpc.adds_pure _)
    refine (gives_requestedChange _ hnull).bind_ensures fun change hchange => ?_
    cases change with
    | none => exact Rpc.ensures_pure rfl
    | some c =>
      refine (ensures_planStages _ _ (hchange c rfl) prior).bind (fun p hp => ?_) (fun p _ => ?_)
      · exact Rpc.ensures_bind fun _ => Rpc.ensures_pure hp
      · exact (Rpc.adds_threadPrivate _ _ _).bind fun _ => Rpc.adds_pure _

end Server

namespace Tester

open Server

/-! ## Trials that end in diagnostics -/

/-- A trial gives something that satisfies `Q`, or it fails for an error that was reported. -/
inductive Ends (Q : α → Prop) : Except TrialFailure α → Prop
  | given {a : α} (h : Q a) : Ends Q (.ok a)
  | reported {ds : Diagnostics} (h : ds.hasError = true) : Ends Q (.error (.diagnostics ds))

/-- However the tester and the world stand, the attempt ends so. -/
def Attempts (Q : α → Prop) (attempt : Attempt σ δ α) : Prop :=
  ∀ t world, Ends Q (attempt.run t world).1.1

/-- Unless the answer has errors, its result satisfies `Q`. -/
def Answers (Q : α → Prop) (step : Trial σ δ (Answer δ α)) : Prop :=
  ∀ t world, (step t world).1.1.diagnostics.hasError = false → Q (step t world).1.1.result

variable {Q : α → Prop} {R : γ → Prop}

theorem attempts_pure {a : α} (h : Q a) : Attempts Q (pure a : Attempt σ δ α) :=
  fun _ _ => .given h

theorem Attempts.bind {attempt : Attempt σ δ α} {next : α → Attempt σ δ γ}
    (h : Attempts Q attempt) (hnext : ∀ a, Q a → Attempts R (next a)) :
    Attempts R (attempt >>= next) := by
  intro t world
  have hends := h t world
  change Ends R (ExceptT.bindCont next (attempt.run t world).1.1 (attempt.run t world).1.2
    (attempt.run t world).2).1.1
  cases hresult : (attempt.run t world).1.1 with
  | ok a =>
    rw [hresult] at hends
    cases hends with
    | given hq => exact hnext a hq _ _
  | error e =>
    rw [hresult] at hends
    cases hends with
    | reported herror => exact .reported herror

theorem attempts_checked {step : Trial σ δ (Answer δ α)} (h : Answers Q step) :
    Attempts Q (checked step) := by
  intro t world
  change Ends Q (ExceptT.run (if (step t world).1.1.diagnostics.hasError then
    throw (.diagnostics (step t world).1.1.diagnostics) else return (step t world).1.1.result :
      Attempt σ δ α) (step t world).1.2 (step t world).2).1.1
  cases hfailed : (step t world).1.1.diagnostics.hasError with
  | true => exact .reported hfailed
  | false => exact .given (h t world hfailed)

theorem answers_ask {rpc : Rpc σ δ α} (h : Rpc.Ensures Q rpc) : Answers Q (ask rpc) :=
  fun t world hok => h ⟨world, t.server, [], []⟩ hok

/-- The plan that a trial makes to destroy a resource is of nothing. -/
theorem answers_planDelete (typeName : String) (prior : Value) :
    Answers (fun planned => planned.state.isNull = true)
      (planDelete typeName prior : Trial σ δ (Answer δ PlanResult)) :=
  fun t => answers_ask (ensures_planResource rfl) t

theorem answers_apply (typeName : String) (prior : Value) (planned : PlanResult) (config : Value) :
    Answers (fun changed => changed.state.isNull = planned.state.isNull)
      (apply typeName prior planned config : Trial σ δ (Answer δ ApplyResult)) :=
  answers_ask (ensures_applyResource _)

/-- Planning nothing makes the change a delete, so its state is the planned one: none. -/
theorem attempts_lifecycleDelete (typeName : String) (state : Value) :
    Attempts (fun _ => True) (lifecycleDelete typeName state : Attempt σ δ Unit) := by
  refine (attempts_checked (answers_planDelete typeName state)).bind fun planned hplanned => ?_
  refine (attempts_checked (answers_apply typeName state planned .null)).bind
    fun deleted hdeleted => ?_
  rw [if_pos (hdeleted.trans hplanned)]
  exact attempts_pure trivial

/-- A destroy that is planned without an error plans nothing, so whatever the provider does, no
trial finds a state after it deleted a resource. -/
theorem destroy_leaves_nothing :
    (∀ (r : PlanRequest) (server : Server σ δ) (world : σ),
      (r.proposedState.getD .null).isNull = true →
      let answer := ((planResource r).run server world).1.1
      answer.diagnostics.hasError = false → answer.result.state.isNull = true) ∧
    ∀ (typeName : String) (state : Value) (t : Tester σ δ) (world : σ) (left : Value),
      ((lifecycleDelete typeName state).run t world).1.1 ≠ .error (.stateAfterDelete left) := by
  refine ⟨fun r server world hnull hok => ensures_planResource hnull _ hok, ?_⟩
  intro typeName state t world left hleft
  have hends := attempts_lifecycleDelete typeName state t world
  rw [hleft] at hends
  cases hends

theorem destroying_namedState_leaves_nothing :
    let server := loneServer namedSchema
    let answer := ((planResource { keptName with proposedState := none }).run server 0).1.1
    let trial := ((lifecycleDelete "lone_thing" namedState).run ⟨server, .standard⟩ 0).1.1
    answer.diagnostics.hasError = false ∧ answer.result.state.isNull = true ∧ trial = .ok () ∧
      ∀ left : Value, trial ≠ .error (.stateAfterDelete left) :=
  ⟨rfl, destroy_leaves_nothing.1 _ _ _ rfl rfl, rfl, destroy_leaves_nothing.2 _ _ _ _⟩

end Tester

end ProviderKit
