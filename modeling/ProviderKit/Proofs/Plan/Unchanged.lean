import ProviderKit.Proofs.Plan.Stages
import ProviderKit.Proofs.Plan.Visits
import ProviderKit.Proofs.Schema.Plain
import ProviderKit.Proofs.Server.Steps
import ProviderKit.Schema.Build
import ProviderKit.Server.Plan

-- A resource that does not change plans no change: where the proposal equals the prior state
-- and nothing has a default, the plan is the proposal, and the modifiers that come with the
-- library leave it as it is, call nothing of the provider and ask for no replacement.

namespace ProviderKit

variable {σ δ β : Type}

/-! ## Schemas without defaults -/

def Schema.hasNoDefaults (s : Schema β) : Bool := s.every (Node.ifAttribute fun a => !a.hasDefault)

theorem hasNoDefaults_plain (s : Schema β) : s.plain.hasNoDefaults = s.hasNoDefaults := by
  refine s.every_ifAttribute_mapBehaviour _ (fun a => ?_)
  cases a
  rfl

theorem defaultAt_of_hasNoDefaults {config : Value} {path : Path} {position : Position β}
    (h : position.Every (Node.ifAttribute fun a => !a.hasDefault)) (v : Value) :
    defaultAt config path (position.node path) v = v := by
  cases position with
  | described n =>
    cases n with
    | attr a =>
      have ha : (!a.hasDefault) = true := Node.self_of_every (h (.attr a) rfl)
      have hnone : a.default = none := by
        cases hd : a.default with
        | none => rfl
        | some d => rw [Attribute.hasDefault, hd] at ha; cases ha
      rw [Position.node, defaultAt, hnone]
    | _ => rfl
  | _ => rfl

/-- Where nothing has a default, the first stage only fills the plan out. -/
theorem applyDefaults_of_hasNoDefaults {s : Schema β} (hs : s.hasNoDefaults = true)
    {config plan filled : Value} (h : s.fillAbsent plan = .ok filled) :
    s.applyDefaults config plan = .ok filled := by
  refine applyDefaults_eq_ok_iff.mpr ⟨filled, h, ?_⟩
  exact (fillAbsent_eq_ok_iff.mp h).again
    (Position.hereditary_every (p := Node.ifAttribute fun a => !a.hasDefault))
    (fun _ hposition _ => congrArg Except.ok (defaultAt_of_hasNoDefaults hposition _))
    (Position.every_described hs)

/-! ## Modifiers that come with the library -/

def PlanModifier.isBuiltIn : PlanModifier σ → Bool
  | .requiresReplace => true
  | .requiresReplaceIf _ _ => true
  | .useStateForUnknown => true
  | .custom _ _ => false

/-- Every plan modifier comes with the library. -/
def Schema.usesBuiltIns (s : ActiveSchema σ) : Bool :=
  s.every (Node.ifAttribute fun a => a.behaviour.planModifiers.all PlanModifier.isBuiltIn)

theorem replaces_of_same {r : ModifierRequest} (h : r.planValue.same r.stateValue = true) :
    r.replaces = false := by
  unfold ModifierRequest.replaces
  simp only [h, Bool.not_true, ite_self]

/-- Where the planned value is the prior one, none of these modifiers does anything. -/
theorem modify_of_same {m : PlanModifier σ} (hm : m.isBuiltIn = true) {r : ModifierRequest}
    (h : r.planValue.same r.stateValue = true) : m.modify r = pure r.unchanged := by
  cases m with
  | requiresReplace =>
    rw [PlanModifier.modify, replaces_of_same h]
    rfl
  | requiresReplaceIf text check =>
    rw [PlanModifier.modify, replaces_of_same h]
    rfl
  | useStateForUnknown =>
    rw [PlanModifier.modify]
    split
    · rfl
    · next hkept =>
      have hplan : r.planValue.isUnknown = true := by
        cases hu : r.planValue.isUnknown with
        | true => rfl
        | false => simp [hu] at hkept
      have hstate := Value.isUnknown_eq_of_same h
      rw [hplan] at hstate
      have heq : r.stateValue = r.planValue := by
        rw [Value.eq_unknown_of_isUnknown hplan, Value.eq_unknown_of_isUnknown hstate.symm]
      rw [heq]
      rfl
  | custom text modify => cases hm

/-- A run of a modifier that changed nothing and had no reason to. -/
structure ModifierCall.IsIdle (call : ModifierCall σ) : Prop where
  response : call.response = call.request.unchanged
  replaces : call.request.replaces = false

/-- The prior value at a node is the planned one. -/
def Unmoved (n : Node (Behaviour σ)) (_path : Path) (_config state plan : Value) : Prop :=
  n.every (Node.ifAttribute fun a => a.behaviour.planModifiers.all PlanModifier.isBuiltIn) = true ∧
    plan.same state = true

theorem passes_unmoved (r : ModifyRequest) :
    Passes (σ := σ) r ModifierCall.IsIdle Unmoved := by
  refine ⟨?_, ?_⟩
  · rintro a path config state plan ⟨hbuiltin, hsame⟩ m hm
    have hm : m.isBuiltIn = true := List.all_eq_true.mp (Node.self_of_every hbuiltin) m hm
    exact ⟨_, modify_of_same hm hsame, rfl, rfl, rfl, rfl, replaces_of_same hsame⟩
  · rintro n m path config state plan s x ⟨hbuiltin, hsame⟩ hdeclares hholds
    exact ⟨hdeclares.every hbuiltin, hholds.same_beside hsame⟩

theorem requiresReplace_of_isIdle {calls : ModifierLog σ} (h : ∀ c ∈ calls, c.IsIdle) :
    calls.requiresReplace = [] := by
  refine List.filterMap_eq_nil_iff.mpr (fun c hc => ?_)
  rw [(h c hc).response]
  rfl

/-- The modifiers of an unchanged plan change nothing. -/
theorem modifyPlan_of_same {s : ActiveSchema σ} (hs : s.usesBuiltIns = true) {r : ModifyRequest}
    (hsame : r.plan.raw.same r.state.raw = true) (hplan : r.plan.raw.Ordered) (world : σ) :
    ∃ calls : ModifierLog σ, s.modifyPlan r world =
      (⟨r.plan, [], calls.diagnostics, r.privateData, calls⟩, world) ∧ ∀ c ∈ calls, c.IsIdle := by
  obtain ⟨calls, hrun, hcalls⟩ :=
    (passes_unmoved r).modifyPlan (s := s) ⟨hs, hsame⟩ hplan world
  rw [requiresReplace_of_isIdle hcalls] at hrun
  exact ⟨calls, hrun, hcalls⟩

/-! ## Requests -/

namespace Server

/-- What equals the prior state is the plan that the provider has its say about. -/
theorem draft_of_same {c : Change} (hs : c.proposed.schema.hasNoDefaults = true)
    (hfilled : c.proposed.schema.fillAbsent c.proposed.raw = .ok c.proposed.raw)
    (hsame : c.proposed.raw.same c.prior.raw = true) : draft c = (c.proposed.raw, none) := by
  unfold draft
  simp only [applyDefaults_of_hasNoDefaults hs hfilled, hsame, Bool.or_true, if_true, ite_self]

/-- Modifiers that come with the library leave an unchanged plan alone, without a word. -/
theorem modifyAttributes_of_same {schema : ActiveSchema σ} (hs : schema.usesBuiltIns = true)
    {c : Change} {p : Planned} (hsame : p.plan.raw.same c.prior.raw = true)
    (hplan : p.plan.raw.Ordered) (hnull : p.plan.isNull = false) (f : Frame σ δ) :
    ∃ calls : ModifierLog σ, modifyAttributes schema c p f =
      ({ p with requiresReplace := [] },
        { f with calls := f.calls ++
            calls.map fun call => ⟨.modifyAttribute call.request, f.diagnostics, []⟩ }) ∧
      ∀ c ∈ calls, c.IsIdle := by
  obtain ⟨calls, hrun, hcalls⟩ := modifyPlan_of_same hs
    (r := ⟨c.config, p.plan, c.prior, c.providerMeta, p.privateState.provider⟩) hsame hplan f.world
  refine ⟨calls, ?_, hcalls⟩
  have hsilent : ∀ call ∈ calls, call.response.diagnostics = [] := by
    intro call hc
    rw [(hcalls call hc).response]
    rfl
  rw [modifyAttributes, hnull, if_neg Bool.false_ne_true, rpc_bind, Rpc.act_eq, hrun, rpc_bind,
    Rpc.noteAll_of_silent hsilent]
  rfl

theorem normalize_nil : Path.normalize [] = [] := by
  simp [Path.normalize, Path.dropRepeated]

theorem normalized_of_ok {schema : PlainSchema} {v : Option Value} {w : Value}
    (h : schema.fillAbsent (v.getD .null) = .ok w) (f : Frame σ δ) :
    normalized schema v f = (some w, f) := by
  rw [normalized, h]
  rfl

/-- The change that is asked for when all values of a request fit the schema. -/
theorem requestedChange_of_ok {schema : PlainSchema} {r : PlanRequest}
    {config prior proposed : Value}
    (hconfig : schema.fillAbsent (r.config.getD .null) = .ok config)
    (hprior : schema.fillAbsent (r.priorState.getD .null) = .ok prior)
    (hproposed : schema.fillAbsent (r.proposedState.getD .null) = .ok proposed) (f : Frame σ δ) :
    requestedChange schema r f =
      (some ⟨⟨config, schema⟩, ⟨prior, schema⟩, ⟨proposed, schema⟩,
        ⟨r.providerMeta.getD .null, f.server.metaSchema⟩, r.client⟩, f) := by
  rw [requestedChange, rpc_bind, normalized_of_ok hconfig, rpc_bind, normalized_of_ok hprior,
    rpc_bind, normalized_of_ok hproposed]
  rfl

/-- The stages of a change that equals the prior state. -/
theorem planStages_of_same {actions : Resource.Actions σ} {schema : ActiveSchema σ}
    (hs : schema.usesBuiltIns = true) (hwhole : actions.modifyPlan = none) {c : Change}
    (hdraft : draft c = (c.proposed.raw, none)) (hsame : c.proposed.raw.same c.prior.raw = true)
    (hplan : c.proposed.raw.Ordered) (hnull : c.proposed.isNull = false) (prior : PrivateState)
    {f : Frame σ δ} (hquiet : f.diagnostics = [])
    (hdeferral : (providerDeferral c.client f).1 = none) :
    ∃ calls : ModifierLog σ, planStages actions schema c prior f =
      (⟨c.proposed, [], prior, none⟩,
        { f with calls := f.calls ++
            calls.map fun call => ⟨.modifyAttribute call.request, [], []⟩ }) ∧
      ∀ c ∈ calls, c.IsIdle := by
  obtain ⟨calls, hrun, hcalls⟩ := modifyAttributes_of_same hs (c := c)
    (p := ⟨c.proposed, [], prior, none⟩) hsame hplan hnull f
  refine ⟨calls, ?_, hcalls⟩
  have hnot : Diagnostics.hasError f.diagnostics = false := by rw [hquiet]; rfl
  have hproviders : providerDeferral (σ := σ) (δ := δ) c.client f = (none, f) :=
    Prod.ext hdeferral rfl
  have hwholeStep : ∀ p : Planned, modifyWhole (δ := δ) actions c p = pure p := by
    intro p
    rw [modifyWhole, hwhole]
  unfold planStages
  rw [hdraft]
  dsimp only [Option.toList_none, Option.isSome_none]
  rw [rpc_bind, Rpc.report_nil]
  simp only [Bool.false_eq_true, if_false]
  rw [rpc_bind, hproviders]
  dsimp only
  rw [rpc_bind, hrun, rpc_bind, Rpc.failed_eq]
  simp only [hnot, Bool.false_eq_true, if_false]
  rw [hwholeStep, rpc_bind, rpc_pure, rpc_bind, Rpc.failed_eq]
  simp only [hnot, hnull, Bool.false_and, Bool.false_eq_true, if_false]
  rw [hquiet, normalize_nil]
  rfl

/-- A resource that does not change plans no change. Where the proposal and the prior state are
equal once filled out, the plan is the proposal, nothing is replaced, the private state comes back
in the bytes it was given in, nothing is reported, and the modifiers that ran saw no change, so
none of them asked the provider anything: the world is as it was when the instance was ready. -/
theorem planResource_of_same (server : Server σ δ) (world : σ) (r : PlanRequest)
    {actions : Resource.Actions σ} {schema : ActiveSchema σ} {f : Frame σ δ}
    (hfresh : freshResource r.typeName ⟨world, server, [], []⟩ = (some (actions, schema), f))
    (hquiet : f.diagnostics = []) (hwhole : actions.modifyPlan = none)
    (hdefaults : schema.hasNoDefaults = true) (hbuiltins : schema.usesBuiltIns = true)
    (hprivate : Diagnostics.hasError (PrivateState.decode r.privateBytes).2 = false)
    (hdeferral : (providerDeferral r.client f).1 = none) {config prior proposed : Value}
    (hconfig : schema.plain.fillAbsent (r.config.getD .null) = .ok config)
    (hprior : schema.plain.fillAbsent (r.priorState.getD .null) = .ok prior)
    (hproposed : schema.plain.fillAbsent (r.proposedState.getD .null) = .ok proposed)
    (hnull : (r.proposedState.getD .null).isNull = false)
    (hordered : (r.proposedState.getD .null).Ordered) (hsame : proposed.same prior = true) :
    ∃ calls : List (Call δ), (planResource r).run server world =
      ((⟨⟨proposed, [], r.privateBytes, none⟩, [], f.calls ++ calls⟩, f.server), f.world) ∧
      ∀ c ∈ calls, ∃ request : ModifierRequest,
        c = ⟨.modifyAttribute request, [], []⟩ ∧ request.replaces = false := by
  have hplain : schema.plain.hasNoDefaults = true := (hasNoDefaults_plain schema).trans hdefaults
  have hkept : proposed.isNull = false := (keeps_of_fillAbsent hproposed).isNull_eq_false hnull
  let c : Change := ⟨⟨config, schema.plain⟩, ⟨prior, schema.plain⟩, ⟨proposed, schema.plain⟩,
    ⟨r.providerMeta.getD .null, f.server.metaSchema⟩, r.client⟩
  have hdraft : draft c = (proposed, none) :=
    draft_of_same hplain (fillAbsent_idempotent hproposed) hsame
  obtain ⟨calls, hrun, hcalls⟩ := planStages_of_same hbuiltins hwhole hdraft hsame
    (ordered_of_fillAbsent hordered hproposed) hkept (PrivateState.decode r.privateBytes).1 hquiet
    hdeferral
  refine ⟨calls.map fun call => ⟨.modifyAttribute call.request, [], []⟩, ?_, ?_⟩
  · have hnot : Diagnostics.hasError f.diagnostics = false := by rw [hquiet]; rfl
    rw [Rpc.run_eq, planResource, rpc_bind, hfresh]
    simp only
    rw [rpc_bind, Rpc.failed_eq]
    simp only [hnot, Bool.false_eq_true, if_false]
    rw [rpc_bind, decodePrivate_of_not_failed hprivate, rpc_bind, Rpc.failed_eq]
    simp only [hnot, Bool.false_eq_true, if_false]
    rw [rpc_bind, requestedChange_of_ok hconfig hprior hproposed]
    simp only
    rw [rpc_bind, hrun, rpc_bind, Rpc.threadPrivate_same]
    simp only [rpc_pure, hquiet]
    rfl
  · intro call hc
    obtain ⟨idle, hidle, rfl⟩ := List.mem_map.mp hc
    exact ⟨idle.request, rfl, (hcalls idle hidle).replaces⟩

/-- The actions of a resource that does nothing. -/
def idleActions (σ : Type) : Resource.Actions σ where
  create r := pure r.start
  read r := pure r.start
  update r := pure r.start
  delete r := pure r.start
  modifyPlan := none
  validateConfig := none
  upgraders := none
  importState := none

/-- A provider of one resource type, whose instances do nothing. The world counts what it was
asked. -/
def loneProvider (schema : ActiveSchema Nat) : Provider Nat Unit where
  metadata := pure ⟨"lone", "1"⟩
  declare := pure ⟨.empty, []⟩
  metaSchema := none
  configure _ := pure (.none, [])
  validateConfig := none
  resources := pure [pure {
    name := fun provider => pure (provider ++ "_thing")
    declare := pure ⟨schema, []⟩
    configure := none
    actions := idleActions Nat }]
  dataSources := pure []
  ephemeralResources := pure []
  functions := pure []
  stateStores := pure []

def loneServer (schema : ActiveSchema Nat) : Server Nat Unit :=
  (Server.start (loneProvider schema) .standard 0).1

/-- The same, with instances that act so. -/
def actingServer (schema : ActiveSchema Nat) (actions : Resource.Actions Nat) : Server Nat Unit :=
  let provider := loneProvider schema
  let acting : Resource Nat Unit → Resource Nat Unit := fun r => { r with actions := actions }
  (Server.start { provider with resources := do return (← provider.resources).map (acting <$> ·) }
    .standard 0).1

/-- A name whose change asks the provider whether to replace the resource, and an identifier that
the provider decides. -/
def namedSchema : ActiveSchema Nat :=
  let asking : PlanModifier Nat := .requiresReplaceIf "asks" fun _ asked => ((true, []), asked + 1)
  let name : Attribute (Behaviour Nat) :=
    ⟨.string, .requiredOnly, none, none, none, ⟨[asking], none⟩⟩
  let id : Attribute (Behaviour Nat) :=
    ⟨.string, .computedOnly, none, none, none, ⟨[.useStateForUnknown], none⟩⟩
  ⟨0, ⟨[("id", id), ("name", name)], [], none⟩⟩

def namedState : Value := .map [("id", .string "7"), ("name", .string "a")]

/-- The plan of a thing that keeps its name. -/
def keptName : PlanRequest where
  typeName := "lone_thing"
  priorState := some namedState
  proposedState := some namedState
  config := some (.map [("name", .string "a")])
  privateBytes := []
  providerMeta := none
  client := .standard

theorem planResource_keptName :
    ∃ (actions : Resource.Actions Nat) (f : Frame Nat Unit),
      freshResource "lone_thing" ⟨0, loneServer namedSchema, [], []⟩ =
        (some (actions, namedSchema), f) ∧
      f.diagnostics = [] ∧ actions.modifyPlan = none ∧ namedSchema.hasNoDefaults = true ∧
      namedSchema.usesBuiltIns = true ∧
      ∃ calls : List (Call Unit), (planResource keptName).run (loneServer namedSchema) 0 =
        ((⟨⟨namedState, [], [], none⟩, [], f.calls ++ calls⟩, f.server), f.world) ∧
        ∀ c ∈ calls, ∃ request : ModifierRequest,
          c = ⟨.modifyAttribute request, [], []⟩ ∧ request.replaces = false := by
  have hordered : namedState.Ordered := Value.ordered_of_keys (by decide) (by simp)
  have hconfig : namedSchema.plain.fillAbsent (keptName.config.getD .null) =
      .ok (.map [("id", .null), ("name", .string "a")]) := rfl
  have hfilled : namedSchema.plain.fillAbsent namedState = .ok namedState := rfl
  obtain ⟨calls, h⟩ := planResource_of_same (loneServer namedSchema) 0 keptName rfl rfl rfl rfl rfl
    rfl rfl hconfig hfilled hfilled rfl hordered (Value.same_self _)
  exact ⟨_, _, rfl, rfl, rfl, rfl, rfl, calls, h⟩

end Server

end ProviderKit
