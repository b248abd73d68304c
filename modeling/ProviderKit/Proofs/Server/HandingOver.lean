import ProviderKit.Proofs.Plan.Traversal
import ProviderKit.Proofs.Server.PrivateEntries
import ProviderKit.Trial.Tester

-- What private data a plan hands to the provider's code, and how a trial hands private state on
-- from one operation to the next. Of the code that has a say in a plan, the first to run gets the
-- data that the request came with.

namespace ProviderKit

variable {σ δ α γ : Type}

namespace Server

/-! ## What planning hands over -/

/-- The private data that a callback gets for its say in a plan. -/
def Callback.planningData? : Callback δ → Option ProviderData
  | .modifyAttribute r => some r.privateData
  | .modifyPlan r => some r.privateData
  | _ => none

/-- The private data that the callbacks with a say in a plan got, call by call. -/
def planningData (calls : List (Call δ)) : List ProviderData :=
  calls.filterMap fun call => call.callback.planningData?

theorem planningData_append (cs ds : List (Call δ)) :
    planningData (cs ++ ds) = planningData cs ++ planningData ds := List.filterMap_append

theorem planningData_eq_nil {cs : List (Call δ)}
    (h : ∀ c ∈ cs, c.callback.planningData? = none) : planningData cs = [] :=
  List.filterMap_eq_nil_iff.mpr h

/-- Where the calls of one stage end, the first of them to plan got `start`, or there was none
and what is left is `start` still. -/
def Opens (start left : ProviderData) (calls : List (Call δ)) : Prop :=
  (planningData calls = [] ∧ left = start) ∨ (planningData calls).head? = some start

/-- The step opens with `start`, and leaves to the next what `left` says. -/
def Rpc.OpensWith (start : ProviderData) (rpc : Rpc σ δ α) (left : α → ProviderData) : Prop :=
  ∀ f, ∃ cs, (rpc f).2.calls = f.calls ++ cs ∧ Opens start (left (rpc f).1) cs

/-- The first call of the step to plan, if there is one, gets `start`. -/
def Rpc.HandsFirst (start : ProviderData) (rpc : Rpc σ δ α) : Prop :=
  ∀ f, ∃ cs, (rpc f).2.calls = f.calls ++ cs ∧
    ∀ data, (planningData cs).head? = some data → data = start

namespace Rpc

variable {start : ProviderData} {rpc : Rpc σ δ α} {next : α → Rpc σ δ γ} {left : α → ProviderData}
  {leftNext : γ → ProviderData}

theorem OpensWith.bind (h : OpensWith start rpc left)
    (hnext : ∀ a, OpensWith (left a) (next a) leftNext) : OpensWith start (rpc >>= next) leftNext := by
  intro f
  obtain ⟨cs, hcs, hopens⟩ := h f
  obtain ⟨ds, hds, hopensNext⟩ := hnext (rpc f).1 (rpc f).2
  refine ⟨cs ++ ds, ?_, ?_⟩
  · rw [rpc_bind, hds, hcs, List.append_assoc]
  · unfold Opens
    rw [planningData_append]
    rcases hopens with ⟨hnil, hleft⟩ | hhead
    · rw [hnil, List.nil_append, ← hleft]
      exact hopensNext
    · right
      rw [List.head?_append, hhead]
      rfl

theorem OpensWith.bind_handsFirst (h : OpensWith start rpc left)
    (hnext : ∀ a, HandsFirst (left a) (next a)) : HandsFirst start (rpc >>= next) := by
  intro f
  obtain ⟨cs, hcs, hopens⟩ := h f
  obtain ⟨ds, hds, hfirst⟩ := hnext (rpc f).1 (rpc f).2
  refine ⟨cs ++ ds, ?_, fun data hdata => ?_⟩
  · rw [rpc_bind, hds, hcs, List.append_assoc]
  · rw [planningData_append] at hdata
    rcases hopens with ⟨hnil, hleft⟩ | hhead
    · rw [hnil, List.nil_append] at hdata
      rw [← hleft]
      exact hfirst data hdata
    · rw [List.head?_append, hhead] at hdata
      exact (Option.some.inj hdata).symm

theorem handsFirst_of_adds (h : Adds (fun callback => callback.planningData? = none) rpc) :
    HandsFirst start rpc := by
  intro f
  obtain ⟨cs, hcs, hquiet⟩ := (h f).calls
  refine ⟨cs, hcs, fun data hdata => ?_⟩
  rw [planningData_eq_nil hquiet] at hdata
  cases hdata

/-- A step that calls nothing to plan leaves what there was. -/
theorem opensWith_of_adds (h : Adds (fun callback => callback.planningData? = none) rpc) :
    OpensWith start rpc fun _ => start := by
  intro f
  obtain ⟨cs, hcs, hquiet⟩ := (h f).calls
  exact ⟨cs, hcs, .inl ⟨planningData_eq_nil hquiet, rfl⟩⟩

theorem opensWith_pure {a : α} (h : left a = start) : OpensWith start (pure a : Rpc σ δ α) left :=
  fun f => ⟨[], (List.append_nil f.calls).symm, .inl ⟨rfl, h⟩⟩

theorem OpensWith.ite {c : Prop} [Decidable c] {rpc' : Rpc σ δ α} (h : OpensWith start rpc left)
    (h' : OpensWith start rpc' left) : OpensWith start (if c then rpc else rpc') left := by
  split
  · exact h
  · exact h'

/-- Once a callback got what there is, it does not matter what follows. -/
theorem opensWith_call {callback : Callback δ} (h : callback.planningData? = some start)
    (action : StateM σ α) (reported : α → Diagnostics)
    (hnext : ∀ a, Adds (fun _ => True) (next a)) :
    OpensWith start (call callback action reported >>= next) leftNext := by
  intro f
  obtain ⟨ds, hds, -⟩ := (hnext _ (call callback action reported f).2).calls
  refine ⟨⟨callback, f.diagnostics, reported (action f.world).1⟩ :: ds, ?_, .inr ?_⟩
  · rw [rpc_bind, hds]
    exact List.append_assoc _ _ _
  · simp [planningData, h]

theorem noteAll_planningData {ι : Type} (callback : ι → Callback δ) (reported : ι → Diagnostics)
    (is : List ι) (f : Frame σ δ) :
    ∃ cs, (noteAll callback reported is f).2.calls = f.calls ++ cs ∧
      planningData cs = is.filterMap fun i => (callback i).planningData? := by
  induction is generalizing f with
  | nil => exact ⟨[], (List.append_nil f.calls).symm, rfl⟩
  | cons i rest ih =>
    obtain ⟨cs, hcs, hdata⟩ := ih (note (callback i) (reported i) f).2
    refine ⟨⟨callback i, f.diagnostics, reported i⟩ :: cs, ?_, ?_⟩
    · rw [noteAll_cons, hcs, note_eq, List.append_assoc]
      rfl
    · rw [planningData, List.filterMap_cons, List.filterMap_cons, ← planningData, hdata]

end Rpc

/-! ## Planning -/

theorem opensWith_modifyAttributes (schema : ActiveSchema σ) (c : Change) (p : Planned) :
    Rpc.OpensWith p.privateState.provider (modifyAttributes schema c p : Rpc σ δ Planned)
      fun q => q.privateState.provider := by
  unfold modifyAttributes
  refine Rpc.OpensWith.ite (Rpc.opensWith_pure rfl) fun f => ?_
  let r : ModifyRequest := ⟨c.config, p.plan, c.prior, c.providerMeta, p.privateState.provider⟩
  let m := (schema.modifyPlan r f.world).1
  have hhanded : ModifierLog.HandedOn p.privateState.provider m.calls :=
    schema.handedOn_modifyPlan r f.world
  obtain ⟨cs, hcs, hdata⟩ := Rpc.noteAll_planningData (δ := δ)
    (fun call : ModifierCall σ => .modifyAttribute call.request)
    (fun call => call.response.diagnostics) m.calls
    (Rpc.act (schema.modifyPlan r) f).2
  refine ⟨cs, hcs, ?_⟩
  unfold Opens
  rw [hdata]
  cases hcalls : m.calls with
  | nil => exact .inl ⟨rfl, congrArg (ModifierLog.privateData · p.privateState.provider) hcalls⟩
  | cons first rest =>
    right
    rw [hcalls] at hhanded
    exact congrArg some (hhanded.head? rfl)

theorem opensWith_modifyWhole (actions : Resource.Actions σ) (c : Change) (p : Planned) :
    Rpc.OpensWith p.privateState.provider (modifyWhole actions c p : Rpc σ δ Planned)
      fun q => q.privateState.provider := by
  unfold modifyWhole
  cases actions.modifyPlan with
  | none => exact Rpc.opensWith_pure rfl
  | some modifyPlan =>
    refine Rpc.opensWith_call rfl _ _ fun answer => ?_
    exact (adds_checkDeferral _ _ _).bind fun _ => Rpc.adds_pure _

theorem opensWith_planStages (actions : Resource.Actions σ) (schema : ActiveSchema σ) (c : Change)
    (prior : PrivateState) :
    Rpc.OpensWith prior.provider (planStages actions schema c prior : Rpc σ δ Planned)
      fun q => q.privateState.provider := by
  unfold planStages
  cases draft c with
  | mk drafted problem =>
  refine (Rpc.opensWith_of_adds (Rpc.adds_report _)).bind fun _ => ?_
  dsimp only
  refine Rpc.OpensWith.ite (Rpc.opensWith_pure rfl) ?_
  refine (Rpc.opensWith_of_adds (silent_providerDeferral _).adds).bind fun deferral => ?_
  cases deferral with
  | some deferral => exact Rpc.opensWith_pure rfl
  | none =>
    dsimp only
    refine (opensWith_modifyAttributes schema c
      ⟨⟨drafted, c.proposed.schema⟩, [], prior, none⟩).bind fun p => ?_
    refine (Rpc.opensWith_of_adds Rpc.adds_failed).bind fun _ =>
      Rpc.OpensWith.ite (Rpc.opensWith_pure rfl) ?_
    refine (opensWith_modifyWhole actions c p).bind fun q => ?_
    refine (Rpc.opensWith_of_adds Rpc.adds_failed).bind fun _ =>
      Rpc.OpensWith.ite (Rpc.opensWith_pure rfl) ?_
    refine Rpc.OpensWith.ite ?_ (Rpc.opensWith_pure rfl)
    exact (Rpc.opensWith_of_adds (Rpc.adds_report _)).bind fun _ => Rpc.opensWith_pure rfl

theorem opensWith_decodePrivate (bytes : Bytes) :
    Rpc.OpensWith (PrivateState.decode bytes).1.provider
      (Rpc.decodePrivate bytes : Rpc σ δ PrivateState) PrivateState.provider :=
  fun f => ⟨[], (List.append_nil f.calls).symm, .inl ⟨rfl, rfl⟩⟩

theorem quiet_of_configures {callback : Callback δ} (h : callback.Configures) :
    callback.planningData? = none := by
  obtain ⟨noun, typeName, data, rfl⟩ := h
  rfl

/-- The first to have a say in a plan gets the data that the request came with. -/
theorem handsFirst_planResource (r : PlanRequest) :
    Rpc.HandsFirst (PrivateState.decode r.privateBytes).1.provider
      (planResource r : Rpc σ δ PlanResult) := by
  unfold planResource
  have hfresh := (Rpc.adds_configures_fresh (σ := σ) (δ := δ) resourceSlot (·.configure)
    Resource.Actions.within r.typeName).mono fun _ => quiet_of_configures
  refine (Rpc.opensWith_of_adds hfresh).bind_handsFirst fun ready => ?_
  cases ready with
  | none => exact Rpc.handsFirst_of_adds (Rpc.adds_pure _)
  | some ready =>
    refine (Rpc.opensWith_of_adds Rpc.adds_failed).bind_handsFirst fun failed => ?_
    cases failed with
    | true => exact Rpc.handsFirst_of_adds (Rpc.adds_pure _)
    | false =>
      refine (opensWith_decodePrivate r.privateBytes).bind_handsFirst fun prior => ?_
      refine (Rpc.opensWith_of_adds Rpc.adds_failed).bind_handsFirst fun failed => ?_
      cases failed with
      | true => exact Rpc.handsFirst_of_adds (Rpc.adds_pure _)
      | false =>
        refine (Rpc.opensWith_of_adds (adds_requestedChange _ r)).bind_handsFirst fun change => ?_
        cases change with
        | none => exact Rpc.handsFirst_of_adds (Rpc.adds_pure _)
        | some c =>
          refine (opensWith_planStages _ _ c prior).bind_handsFirst fun p => ?_
          exact Rpc.handsFirst_of_adds
            ((Rpc.adds_threadPrivate _ _ _).bind fun _ => Rpc.adds_pure _)

end Server

namespace Tester

open Server

/-! ## The answers of a life cycle -/

/-- The answers when a change is planned, the plan applied and the outcome read back. -/
structure Cycle (δ : Type) where
  planned : Answer δ PlanResult
  changed : Answer δ ApplyResult
  found : Answer δ ReadResult

/-- The answers when a resource is created, updated and deleted. -/
structure LifecycleAnswers (δ : Type) where
  create : Cycle δ
  update : Cycle δ
  planDelete : Answer δ PlanResult
  delete : Answer δ ApplyResult

/-- Plan a change, apply the plan and read the outcome back, whatever is reported. -/
def cycle (typeName : String) (planning : Trial σ δ (Answer δ PlanResult)) (prior config : Value) :
    Trial σ δ (Cycle δ) := do
  let planned ← planning
  let changed ← apply typeName prior planned.result config
  let found ← read typeName changed.result.state changed.result.privateBytes
  return ⟨planned, changed, found⟩

/-- The answers when a resource is created, updated and deleted, whatever is reported. Each step
goes on from where the last one got to. -/
def lifecycleAnswers (typeName : String) (config updated : Value) (t : Tester σ δ) (world : σ) :
    LifecycleAnswers δ :=
  let create := cycle typeName (planCreate typeName config) .null config t world
  let created := create.1.1.found.result.state
  let update := cycle typeName (planUpdate typeName created updated) created updated
    create.1.2 create.2
  let state := update.1.1.found.result.state
  let planned := planDelete typeName state update.1.2 update.2
  let deleted := apply typeName state planned.1.1.result .null planned.1.2 planned.2
  ⟨create.1.1, update.1.1, planned.1.1, deleted.1.1⟩

/-- No answer has an error. -/
def Cycle.Succeeds (c : Cycle δ) : Prop :=
  c.planned.diagnostics.hasError = false ∧ c.changed.diagnostics.hasError = false ∧
    c.found.diagnostics.hasError = false

/-- No answer has an error, and no state is left. -/
def LifecycleAnswers.Succeed (a : LifecycleAnswers δ) : Prop :=
  a.create.Succeeds ∧ a.update.Succeeds ∧ a.planDelete.diagnostics.hasError = false ∧
    a.delete.diagnostics.hasError = false ∧ a.delete.result.state.isNull = true

theorem checked_bind_eq_ok_iff {step : Trial σ δ (Answer δ α)} {next : α → Attempt σ δ γ}
    {t : Tester σ δ} {world : σ} {c : γ} :
    ((checked step >>= next).run t world).1.1 = .ok c ↔
      (step t world).1.1.diagnostics.hasError = false ∧
        ((next (step t world).1.1.result).run (step t world).1.2 (step t world).2).1.1 = .ok c := by
  change (ExceptT.bindCont next (ExceptT.run (if (step t world).1.1.diagnostics.hasError then
    throw (.diagnostics (step t world).1.1.diagnostics) else return (step t world).1.1.result :
      Attempt σ δ α) (step t world).1.2 (step t world).2).1.1 _ _).1.1 = .ok c ↔ _
  cases (step t world).1.1.diagnostics.hasError with
  | true => exact ⟨nofun, fun h => Bool.noConfusion h.1⟩
  | false => exact ⟨fun h => ⟨rfl, h⟩, fun h => h.2⟩

/-- A cycle that is part of a trial ends well if no answer has an error; the trial goes on from
where the cycle got to. -/
theorem cycle_bind_eq_ok_iff {typeName : String} {planning : Trial σ δ (Answer δ PlanResult)}
    {prior config : Value} {next : Value × Bytes → Attempt σ δ γ} {t : Tester σ δ} {world : σ}
    {c : γ} :
    (((do
        let planned ← checked planning
        applyAndRead typeName prior planned config) >>= next).run t world).1.1 = .ok c ↔
      let done := cycle typeName planning prior config t world
      done.1.1.Succeeds ∧
        ((next (done.1.1.found.result.state, done.1.1.found.result.privateBytes)).run
          done.1.2 done.2).1.1 = .ok c := by
  simp only [applyAndRead, bind_assoc, pure_bind, checked_bind_eq_ok_iff, Cycle.Succeeds, and_assoc]
  exact Iff.rfl

theorem cycle_planned (typeName : String) (planning : Trial σ δ (Answer δ PlanResult))
    (prior config : Value) (t : Tester σ δ) (world : σ) :
    (cycle typeName planning prior config t world).1.1.planned = (planning t world).1.1 := rfl

theorem lifecycleDelete_bind_eq_ok_iff {typeName : String} {state : Value} {a : α}
    {t : Tester σ δ} {world : σ} {c : α} :
    ((lifecycleDelete typeName state >>= fun _ => pure a : Attempt σ δ α).run t world).1.1 = .ok c ↔
      let planned := planDelete typeName state t world
      let deleted := apply typeName state planned.1.1.result .null planned.1.2 planned.2
      planned.1.1.diagnostics.hasError = false ∧ deleted.1.1.diagnostics.hasError = false ∧
        deleted.1.1.result.state.isNull = true ∧ a = c := by
  simp only [lifecycleDelete, bind_assoc, checked_bind_eq_ok_iff]
  refine and_congr_right fun _ => and_congr_right fun _ => ?_
  split
  · next hnull => exact ⟨fun h => ⟨hnull, Except.ok.inj h⟩, fun h => congrArg Except.ok h.2⟩
  · next hnull => exact ⟨nofun, fun h => absurd h.1 hnull⟩

/-- A life cycle ends well when every step of it does, and gives the state read after the update. -/
theorem lifecycle_eq_ok_iff {typeName : String} {config updated : Value} {t : Tester σ δ}
    {world : σ} {state : Value} :
    ((lifecycle typeName config updated).run t world).1.1 = .ok state ↔
      let answers := lifecycleAnswers typeName config updated t world
      answers.Succeed ∧ answers.update.found.result.state = state := by
  unfold lifecycle lifecycleCreate lifecycleUpdate
  unfold lifecycleAnswers
  rw [cycle_bind_eq_ok_iff]
  generalize cycle typeName (planCreate typeName config) .null config t world = create
  dsimp only
  rw [cycle_bind_eq_ok_iff]
  generalize cycle typeName _ _ updated create.1.2 create.2 = update
  dsimp only
  rw [lifecycleDelete_bind_eq_ok_iff]
  simp only [LifecycleAnswers.Succeed, and_assoc]

theorem lifecycle_of_succeed {typeName : String} {config updated : Value} {t : Tester σ δ}
    {world : σ} (h : (lifecycleAnswers typeName config updated t world).Succeed) :
    ((lifecycle typeName config updated).run t world).1.1 =
      .ok (lifecycleAnswers typeName config updated t world).update.found.result.state := by
  rw [lifecycle_eq_ok_iff]
  exact ⟨h, rfl⟩

/-! ## What a life cycle hands on -/

/-- The private data that the code with a say in a plan got, call by call. -/
def planningData (answer : Answer δ PlanResult) : List ProviderData :=
  Server.planningData answer.calls

/-- The first to have a say in a plan got the data that was stored with what had been read. -/
def Continues (planned : Answer δ PlanResult) (found : Answer δ ReadResult) : Prop :=
  ∀ data, (planningData planned).head? = some data →
    data = (PrivateState.decode found.result.privateBytes).1.provider

/-- Private state is handed on from one change to the next. -/
def LifecycleAnswers.HandOn (a : LifecycleAnswers δ) : Prop :=
  Continues a.update.planned a.create.found ∧ Continues a.planDelete a.update.found

theorem ask_first {r : PlanRequest} {t : Tester σ δ} {world : σ} {data : ProviderData}
    (h : (planningData (ask (planResource r) t world).1.1).head? = some data) :
    data = (PrivateState.decode r.privateBytes).1.provider := by
  obtain ⟨cs, hcs, hfirst⟩ := handsFirst_planResource r (⟨world, t.server, [], []⟩ : Frame σ δ)
  refine hfirst data ?_
  rw [List.nil_append] at hcs
  rw [← hcs]
  exact h

/-- A tester plans with no private state, so the first to have a say gets no data. -/
theorem plan_first {typeName : String} {prior proposed config : Value} {t : Tester σ δ}
    {world : σ} {data : ProviderData}
    (h : (planningData (plan typeName prior proposed config t world).1.1).head? = some data) :
    data = .empty := by
  have hempty : (PrivateState.decode []).1.provider = .empty := rfl
  rw [← hempty]
  exact ask_first h

theorem continues_iff {planned : Answer δ PlanResult} {found : Answer δ ReadResult}
    (hfirst : ∀ data, (planningData planned).head? = some data → data = .empty) :
    Continues planned found ↔ planningData planned = [] ∨
      (PrivateState.decode found.result.privateBytes).1.provider = .empty := by
  constructor
  · intro h
    cases hdata : planningData planned with
    | nil => exact .inl rfl
    | cons data rest =>
      have hhead : (planningData planned).head? = some data := by rw [hdata]; rfl
      exact .inr ((h data hhead).symm.trans (hfirst data hhead))
  · rintro (hnil | hempty) data hdata
    · rw [hnil] at hdata
      cases hdata
    · rw [hempty]
      exact hfirst data hdata

/-- A life cycle that ends well hands private state on from the reads to the plans that follow
exactly when no code of the provider has a say in such a plan, or there is no data to hand on. -/
theorem lifecycle_hands_on_iff (typeName : String) (config updated : Value) (t : Tester σ δ)
    (world : σ) :
    let answers := lifecycleAnswers typeName config updated t world
    (∀ state, ((lifecycle typeName config updated).run t world).1.1 = .ok state ↔
      answers.Succeed ∧ answers.update.found.result.state = state) ∧
    (answers.HandOn ↔
      (planningData answers.update.planned = [] ∨
        (PrivateState.decode answers.create.found.result.privateBytes).1.provider = .empty) ∧
      (planningData answers.planDelete = [] ∨
        (PrivateState.decode answers.update.found.result.privateBytes).1.provider = .empty)) := by
  refine ⟨fun _ => lifecycle_eq_ok_iff, ?_⟩
  unfold lifecycleAnswers LifecycleAnswers.HandOn
  dsimp only
  rw [cycle_planned, planUpdate, planDelete]
  exact and_congr (continues_iff fun _ => plan_first) (continues_iff fun _ => plan_first)

/-- The actions of a resource that stores a mark with each change, and looks at every plan. -/
def watchfulActions : Resource.Actions Nat :=
  { idleActions Nat with
    create := fun r =>
      pure ⟨{ r.plan with raw := namedState }, (r.privateData.set "seen" [50]).1, []⟩
    update := fun r => pure ⟨r.plan, (r.privateData.set "seen" [51]).1, []⟩
    modifyPlan := some fun r => pure r.start }

def renamed (name : String) : Value := .map [("id", .null), ("name", .string name)]

/-- The answers when such a resource is given another name. -/
def renameAnswers : LifecycleAnswers Unit :=
  lifecycleAnswers "lone_thing" (renamed "a") (renamed "b")
    ⟨actingServer namedSchema watchfulActions, .standard⟩ 0

/-- The marks are read back, and neither the plan of the update nor the plan of the delete gets the
one that was read before. -/
theorem rename_drops_marks :
    ((lifecycle "lone_thing" (renamed "a") (renamed "b")).run
      (⟨actingServer namedSchema watchfulActions, .standard⟩ : Tester Nat Unit) 0).1.1 =
        .ok renameAnswers.update.found.result.state ∧
    (PrivateState.decode renameAnswers.create.found.result.privateBytes).1.provider.entries =
      [("seen", [50])] ∧
    (PrivateState.decode renameAnswers.update.found.result.privateBytes).1.provider.entries =
      [("seen", [51])] ∧
    ¬ Continues renameAnswers.update.planned renameAnswers.create.found ∧
    ¬ Continues renameAnswers.planDelete renameAnswers.update.found := by
  have hsucceed : renameAnswers.Succeed := by
    unfold LifecycleAnswers.Succeed Cycle.Succeeds
    decide +kernel
  have hcreated : (PrivateState.decode
      renameAnswers.create.found.result.privateBytes).1.provider.entries = [("seen", [50])] := by
    decide +kernel
  have hupdated : (PrivateState.decode
      renameAnswers.update.found.result.privateBytes).1.provider.entries = [("seen", [51])] := by
    decide +kernel
  have hupdate : (planningData renameAnswers.update.planned).head? = some .empty := by
    decide +kernel
  have hdelete : (planningData renameAnswers.planDelete).head? = some .empty := by
    decide +kernel
  refine ⟨?_, hcreated, hupdated, fun h => ?_, fun h => ?_⟩
  · unfold renameAnswers
    exact lifecycle_of_succeed hsucceed
  · have hempty := congrArg ProviderData.entries (h _ hupdate)
    rw [hcreated] at hempty
    cases hempty
  · have hempty := congrArg ProviderData.entries (h _ hdelete)
    rw [hupdated] at hempty
    cases hempty

end Tester

end ProviderKit
