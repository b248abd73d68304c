import ProviderKit.Proofs.Plan.Replacement
import ProviderKit.Trial.Tester

-- Planning a configuration again. A trial proposes the prior values of what its configuration
-- leaves null, but at the top level only. Where everything else that is configured at the top
-- level equals the state, nothing is planned to change. Where it does not, and no modifier puts
-- prior values back, something is.

namespace ProviderKit

variable {σ δ : Type}

/-! ## Modifiers that leave planned values alone -/

/-- The modifier may ask for a replacement, and does nothing else. -/
def PlanModifier.onlyAsks : PlanModifier σ → Bool
  | .requiresReplace => true
  | .requiresReplaceIf _ _ => true
  | _ => false

/-- No plan modifier does more than to ask for a replacement. -/
def Schema.onlyAsks (s : ActiveSchema σ) : Bool :=
  s.every (Node.ifAttribute fun a => a.behaviour.planModifiers.all PlanModifier.onlyAsks)

theorem planValue_modify {m : PlanModifier σ} (hm : m.onlyAsks = true) (r : ModifierRequest)
    (world : σ) : (m.modify r world).1.planValue = r.planValue := by
  cases m with
  | requiresReplace => rfl
  | requiresReplaceIf description check =>
    rw [PlanModifier.modify]
    split
    · rfl
    · rfl
  | _ => cases hm

theorem gives_runModifiers (r : ModifyRequest) {ms : List (PlanModifier σ)}
    (hms : ms.all PlanModifier.onlyAsks = true) (path : Path) (config state plan : Value) :
    Gives _ (Modify.runModifiers r path config state ms plan) (·.1 = plan) := by
  induction ms with
  | nil => exact fun _ _ => rfl
  | cons m ms ih =>
    rw [List.all_cons, Bool.and_eq_true] at hms
    intro log world
    rw [runModifiers_cons, planValue_modify hms.1]
    split
    · rfl
    · exact ih hms.2 _ _

/-- No plan modifier at a node or below does more than to ask for a replacement. -/
def OnlyAsked (n : Node (Behaviour σ)) (_path : Path) (_config _state _plan : Value) : Prop :=
  n.every (Node.ifAttribute fun a => a.behaviour.planModifiers.all PlanModifier.onlyAsks) = true

theorem leavesPlan_onlyAsked (r : ModifyRequest) : LeavesPlan (σ := σ) r Gives OnlyAsked :=
  ⟨sequential_gives, fun ha => gives_runModifiers r (Node.self_of_every ha) _ _ _ _,
    fun hn hdeclares _ => hdeclares.every hn⟩

/-- Modifiers that only ask for replacements leave the plan as it is, whatever they report. -/
theorem plan_modifyPlan {s : ActiveSchema σ} (hs : s.onlyAsks = true) {r : ModifyRequest}
    (hplan : r.plan.raw.Ordered) (world : σ) : (s.modifyPlan r world).1.plan = r.plan := by
  have hroot : OnlyAsked (.block s.root) .root r.config.raw r.state.raw r.plan.raw := hs
  have hraw := (leavesPlan_onlyAsked r).block s.root rfl hroot hplan [] world
  rw [Schema.modifyPlan_eq]
  simp only [hraw]

/-! ## Stages -/

namespace Server

/-- The stages of a change that equals the prior state plan what was proposed, and replace
nothing. -/
theorem plan_planStages_of_same {actions : Resource.Actions σ} {schema : ActiveSchema σ}
    (hs : schema.usesBuiltIns = true) (hwhole : actions.modifyPlan = none) {c : Change}
    (hdraft : draft c = (c.proposed.raw, none)) (hsame : c.proposed.raw.same c.prior.raw = true)
    (hordered : c.proposed.raw.Ordered) (prior : PrivateState) (f : Frame σ δ) :
    (planStages actions schema c prior f).1.plan.raw = c.proposed.raw ∧
      (planStages actions schema c prior f).1.requiresReplace = [] := by
  have hfrom := comesFrom_planStages schema hwhole c prior f
  rw [hdraft] at hfrom
  cases hfrom with
  | drafted hplan hnone => exact ⟨hplan, hnone⟩
  | modified world _ _ hplan hasked =>
    obtain ⟨calls, hrun, _⟩ := modifyPlan_of_same hs
      (r := ⟨c.config, ⟨c.proposed.raw, c.proposed.schema⟩, c.prior, c.providerMeta,
        prior.provider⟩) hsame hordered world
    rw [modified, hrun] at hplan hasked
    exact ⟨congrArg Described.raw hplan, List.eq_nil_iff_forall_not_mem.mpr fun path hpath =>
      List.not_mem_nil (hasked path hpath)⟩

/-- Where modifiers only ask for replacements, a plan without unknown values is what was
proposed. -/
theorem plan_planStages_of_isFullyKnown {actions : Resource.Actions σ} {schema : ActiveSchema σ}
    (hs : schema.onlyAsks = true) (hwhole : actions.modifyPlan = none) {c : Change}
    (hdefaults : c.proposed.schema.hasNoDefaults = true)
    (hfilled : c.proposed.schema.fillAbsent c.proposed.raw = .ok c.proposed.raw)
    (hordered : c.proposed.raw.Ordered) {prior : PrivateState} {f : Frame σ δ}
    (hknown : (planStages actions schema c prior f).1.plan.raw.isFullyKnown = true) :
    (planStages actions schema c prior f).1.plan.raw = c.proposed.raw := by
  have hdraft := (draft_cases hdefaults hfilled).imp_left And.left
  have hdrafted : (draft c).1.Ordered := by
    rcases hdraft with heq | hwalk
    · rw [heq]
      exact hordered
    · exact ordered_of_unknownAt hwalk hordered
  have hplan : (planStages actions schema c prior f).1.plan.raw = (draft c).1 := by
    cases comesFrom_planStages schema hwhole c prior f with
    | drafted hplan _ => exact hplan
    | modified world _ _ hplan _ =>
      rw [hplan, modified, plan_modifyPlan hs hdrafted]
  rw [hplan] at hknown ⊢
  rcases hdraft with heq | hwalk
  · exact heq
  · exact eq_of_unknownAt_of_isFullyKnown hwalk hknown

/-- What is planned on an instance that is ready, when all values of the request fit the schema. -/
theorem result_planResource {server : Server σ δ} {world : σ} {r : PlanRequest}
    {actions : Resource.Actions σ} {schema : ActiveSchema σ} {f : Frame σ δ}
    (hfresh : freshResource r.typeName ⟨world, server, [], []⟩ = (some (actions, schema), f))
    (hready : Diagnostics.hasError f.diagnostics = false)
    (hprivate : Diagnostics.hasError (PrivateState.decode r.privateBytes).2 = false)
    {config prior proposed : Value}
    (hconfig : schema.plain.fillAbsent (r.config.getD .null) = .ok config)
    (hprior : schema.plain.fillAbsent (r.priorState.getD .null) = .ok prior)
    (hproposed : schema.plain.fillAbsent (r.proposedState.getD .null) = .ok proposed) :
    let c : Change := ⟨⟨config, schema.plain⟩, ⟨prior, schema.plain⟩, ⟨proposed, schema.plain⟩,
      ⟨r.providerMeta.getD .null, f.server.metaSchema⟩, r.client⟩
    let p := (planStages actions schema c (PrivateState.decode r.privateBytes).1 f).1
    let result := ((planResource r).run server world).1.1.result
    result.state = p.plan.raw ∧ result.requiresReplace = p.requiresReplace := by
  dsimp only
  rw [Rpc.run_eq, planResource, rpc_bind, hfresh]
  simp only
  rw [rpc_bind, Rpc.failed_eq]
  simp only [hready, Bool.false_eq_true, if_false]
  rw [rpc_bind, decodePrivate_of_not_failed hprivate, rpc_bind, Rpc.failed_eq]
  simp only [hready, Bool.false_eq_true, if_false]
  rw [rpc_bind, requestedChange_of_ok hconfig hprior hproposed]
  exact ⟨rfl, rfl⟩

end Server

/-! ## What a configuration leaves open -/

namespace Value

mutual
/-- The state has the keys and the lengths of the configuration, and equals it wherever that is not
null. -/
def agrees : Value → Value → Bool
  | .null, _ => true
  | .list xs, .list ys => itemsAgree xs ys
  | .map es, .map fs => entriesAgree es fs
  | config, state => config.same state
def itemsAgree : List Value → List Value → Bool
  | [], [] => true
  | x :: xs, y :: ys => x.agrees y && itemsAgree xs ys
  | _, _ => false
def entriesAgree : List (String × Value) → List (String × Value) → Bool
  | [], [] => true
  | (k, x) :: es, (l, y) :: fs => k = l && x.agrees y && entriesAgree es fs
  | _, _ => false
end

theorem keys_eq_of_entriesAgree {es fs : List (String × Value)} (h : entriesAgree es fs = true) :
    Keyed.keys es = Keyed.keys fs := by
  induction es generalizing fs with
  | nil =>
    cases fs with
    | nil => rfl
    | cons f fs => simp [entriesAgree] at h
  | cons e es ih =>
    obtain ⟨k, x⟩ := e
    rcases fs with _ | ⟨⟨l, y⟩, fs⟩
    · simp [entriesAgree] at h
    · simp only [entriesAgree, Bool.and_eq_true, decide_eq_true_eq] at h
      have hrest := ih h.2
      unfold Keyed.keys at hrest ⊢
      rw [List.map_cons, List.map_cons, hrest, h.1.1]

/-- Under each name, the configuration has null, or what equals the state. -/
def SettledIn (config state : Value) : Prop :=
  ∀ name, (config.entryOrNull name).isNull = true ∨
    (config.entryOrNull name).same (state.entryOrNull name) = true

end Value

namespace Tester

open Server

/-- What is proposed for a configured value. -/
def proposedValue (prior : Option Value) (v : Value) : Value := if v.isNull then prior.getD v else v

def proposedEntries (stored entries : Keyed Value) : Keyed Value :=
  entries.map fun e => (e.1, proposedValue (Keyed.get? stored e.1) e.2)

section

variable {stored entries : Keyed Value}

theorem propose_map : propose (.map stored) (.map entries) = .map (proposedEntries stored entries) := by
  refine congrArg Value.map (List.map_congr_left fun e _ => ?_)
  obtain ⟨name, v⟩ := e
  unfold proposedValue
  cases hp : Keyed.get? stored name with
  | some p => simp only [hp, Option.getD_some]
  | none => simp only [hp, Option.getD_none, ite_self]

theorem keys_proposedEntries : Keyed.keys (proposedEntries stored entries) = Keyed.keys entries := by
  unfold Keyed.keys proposedEntries
  rw [List.map_map]
  rfl

theorem get?_proposedEntries (k : String) :
    Keyed.get? (proposedEntries stored entries) k =
      (Keyed.get? entries k).map (proposedValue (Keyed.get? stored k)) := by
  induction entries with
  | nil => rfl
  | cons e rest ih =>
    obtain ⟨l, v⟩ := e
    rw [proposedEntries, List.map_cons, Keyed.get?_cons, Keyed.get?_cons]
    by_cases hl : l = k
    · rw [if_pos hl, if_pos hl, hl]
      rfl
    · rw [if_neg hl, if_neg hl]
      exact ih

/-- An entry of the proposal is one of the configuration or one of the state. -/
theorem mem_of_mem_proposedEntries {e : String × Value} (h : e ∈ proposedEntries stored entries) :
    e ∈ entries ∨ e ∈ stored := by
  obtain ⟨⟨k, v⟩, hv, rfl⟩ := List.mem_map.mp h
  unfold proposedValue
  dsimp only
  split
  · cases hp : Keyed.get? stored k with
    | none => exact .inl hv
    | some p => exact .inr (Keyed.mem_of_get? hp)
  · exact .inl hv

theorem ascending_proposedEntries (h : Keyed.Ascending entries) :
    Keyed.Ascending (proposedEntries stored entries) := by
  rw [Keyed.ascending_iff_keys, keys_proposedEntries, ← Keyed.ascending_iff_keys]
  exact h

theorem ordered_proposedEntries (hentries : (Value.map entries).Ordered)
    (hstored : (Value.map stored).Ordered) : (Value.map (proposedEntries stored entries)).Ordered := by
  refine .map (ascending_proposedEntries hentries.ascending) fun e he => ?_
  rcases mem_of_mem_proposedEntries he with he | he
  · exact hentries.of_map he
  · exact hstored.of_map he

/-- Where configuration and state are filled out, the proposal is. -/
theorem fillAbsent_proposedEntries {β : Type} {s : Schema β}
    (hentries : s.fillAbsent (.map entries) = .ok (.map entries))
    (hstored : s.fillAbsent (.map stored) = .ok (.map stored)) :
    s.fillAbsent (.map (proposedEntries stored entries)) =
      .ok (.map (proposedEntries stored entries)) := by
  rw [fillAbsent_eq_ok_iff, rebuilds_filling_self_iff] at hentries hstored ⊢
  obtain ⟨hnames, child, hc, hfilled⟩ := hentries
  obtain ⟨_, child', hc', hfilled'⟩ := hstored
  rw [hc] at hc'
  cases hc'
  refine ⟨fun name hname => ?_, child, hc, fun e he => ?_⟩
  · obtain ⟨v, hv⟩ := hnames name hname
    rw [get?_proposedEntries, hv]
    exact ⟨_, rfl⟩
  · rcases mem_of_mem_proposedEntries he with he | he
    · exact hfilled e he
    · exact hfilled' e he

/-- The proposal equals the state when all that is configured at the top level does. -/
theorem proposedEntries_same_iff (hentries : Keyed.Ascending entries)
    (hagrees : (Value.map entries).agrees (.map stored) = true) :
    (Value.map (proposedEntries stored entries)).same (.map stored) = true ↔
      (Value.map entries).SettledIn (.map stored) := by
  unfold Value.agrees at hagrees
  have hkeys := Value.keys_eq_of_entriesAgree hagrees
  constructor
  · intro h name
    have hrel := Value.get?_same h name
    rw [get?_proposedEntries] at hrel
    cases hv : Keyed.get? entries name with
    | none => exact .inl (by simp [Value.entryOrNull, Value.entry?, hv, Value.isNull])
    | some v =>
      rw [hv] at hrel
      obtain ⟨p, hp, hvp⟩ := exists_of_rel_some_left hrel
      simp only [Value.entryOrNull, Value.entry?, hv, hp, Option.getD_some]
      cases hnull : v.isNull with
      | true => exact .inl rfl
      | false =>
        rw [proposedValue, hnull, if_neg Bool.false_ne_true] at hvp
        exact .inr hvp
  · intro h
    refine Value.sameEntries_of_get? (ascending_proposedEntries hentries)
      (keys_proposedEntries.trans hkeys) fun k x y hx hy => ?_
    rw [get?_proposedEntries] at hx
    obtain ⟨v, hv, rfl⟩ := Option.map_eq_some_iff.mp hx
    rw [hy, proposedValue]
    split
    · exact y.same_self
    · next hnull =>
      have hsettled := h k
      simp only [Value.entryOrNull, Value.entry?, hv, hy, Option.getD_some] at hsettled
      exact hsettled.resolve_left hnull

end

/-! ## Planning again -/

/-- The answer plans to keep the state, and to replace nothing. -/
def PlansNoChange (answer : Answer δ PlanResult) (state : Value) : Prop :=
  answer.result.state.same state = true ∧ answer.result.requiresReplace = []

/-- What a configuration is planned as, on an instance that is ready, when it and the state fit the
schema. -/
theorem result_planUpdate {t : Tester σ δ} {world : σ} {typeName : String}
    {actions : Resource.Actions σ} {schema : ActiveSchema σ} {f : Frame σ δ}
    (hfresh : freshResource typeName ⟨world, t.server, [], []⟩ = (some (actions, schema), f))
    (hready : Diagnostics.hasError f.diagnostics = false) {entries stored : Keyed Value}
    (hentries : schema.plain.fillAbsent (.map entries) = .ok (.map entries))
    (hstored : schema.plain.fillAbsent (.map stored) = .ok (.map stored)) :
    let c : Change := ⟨⟨.map entries, schema.plain⟩, ⟨.map stored, schema.plain⟩,
      ⟨.map (proposedEntries stored entries), schema.plain⟩, ⟨.null, f.server.metaSchema⟩, t.client⟩
    let p := (planStages actions schema c .empty f).1
    let result := (planUpdate typeName (.map stored) (.map entries) t world).1.1.result
    result.state = p.plan.raw ∧ result.requiresReplace = p.requiresReplace := by
  have hproposed := fillAbsent_proposedEntries hentries hstored
  rw [← propose_map] at hproposed ⊢
  exact result_planResource
    (r := ⟨typeName, some (.map stored), some (propose (.map stored) (.map entries)),
      some (.map entries), [], none, t.client⟩) hfresh hready rfl hentries hstored hproposed

/-- Planning a configuration again, when the state has all that it configures. If what it configures
at the top level equals the state there, the plan is to change nothing. Where no modifier does more
than to ask for a replacement, the plan is to change nothing only then: one null further down, where
the state has something, and there is a change. -/
theorem planUpdate_changes_nothing_iff (t : Tester σ δ) (world : σ) (typeName : String)
    {actions : Resource.Actions σ} {schema : ActiveSchema σ} {f : Frame σ δ}
    (hfresh : freshResource typeName ⟨world, t.server, [], []⟩ = (some (actions, schema), f))
    (hready : Diagnostics.hasError f.diagnostics = false) (hwhole : actions.modifyPlan = none)
    (hdefaults : schema.hasNoDefaults = true) (hbuiltins : schema.usesBuiltIns = true)
    {entries stored : Keyed Value}
    (hentries : schema.plain.fillAbsent (.map entries) = .ok (.map entries))
    (hstored : schema.plain.fillAbsent (.map stored) = .ok (.map stored))
    (hentriesOrdered : (Value.map entries).Ordered) (hstoredOrdered : (Value.map stored).Ordered)
    (hknown : (Value.map stored).isFullyKnown = true)
    (hagrees : (Value.map entries).agrees (.map stored) = true) :
    let answer := (planUpdate typeName (.map stored) (.map entries) t world).1.1
    ((Value.map entries).SettledIn (.map stored) → PlansNoChange answer (.map stored)) ∧
    (schema.onlyAsks = true →
      (PlansNoChange answer (.map stored) ↔ (Value.map entries).SettledIn (.map stored))) := by
  obtain ⟨hstate, hreplaced⟩ := result_planUpdate hfresh hready hentries hstored
  have hsame := proposedEntries_same_iff hentriesOrdered.ascending hagrees
  have hplain : schema.plain.hasNoDefaults = true := (hasNoDefaults_plain schema).trans hdefaults
  have hproposed := fillAbsent_proposedEntries hentries hstored
  have hordered := ordered_proposedEntries hentriesOrdered hstoredOrdered
  let c : Change := ⟨⟨.map entries, schema.plain⟩, ⟨.map stored, schema.plain⟩,
    ⟨.map (proposedEntries stored entries), schema.plain⟩, ⟨.null, f.server.metaSchema⟩, t.client⟩
  have hconverges : (Value.map entries).SettledIn (.map stored) → PlansNoChange
      (planUpdate typeName (.map stored) (.map entries) t world).1.1 (.map stored) := by
    intro hsettled
    have hunmoved := hsame.mpr hsettled
    obtain ⟨hplan, hnone⟩ := plan_planStages_of_same (c := c) hbuiltins hwhole
      (draft_of_same hplain hproposed hunmoved) hunmoved hordered .empty f
    refine ⟨?_, hreplaced.trans hnone⟩
    rw [hstate, hplan]
    exact hunmoved
  refine ⟨hconverges, fun hasks => ⟨fun hunchanged => ?_, hconverges⟩⟩
  -- A plan that equals the state has nothing unknown in it, so it is what was proposed.
  have hkept := hunchanged.1
  rw [hstate] at hkept
  have hplan := plan_planStages_of_isFullyKnown (c := c) hasks hwhole hplain hproposed hordered
    ((Value.isFullyKnown_eq_of_same _ hkept).trans hknown)
  rw [hplan] at hkept
  exact hsame.mp hkept

/-- A small thing in a box, whose code the provider decides. -/
def boxed (code : Value) : Keyed Value :=
  [("box", .map [("code", code), ("label", .string "a")]), ("size", .string "small")]

theorem ordered_boxed {code : Value} (h : code.Ordered) : (Value.map (boxed code)).Ordered := by
  have hbox : (Value.map [("code", code), ("label", .string "a")]).Ordered :=
    Value.ordered_of_keys (show ["code", "label"].Pairwise (· < ·) by decide) (by simp [h])
  exact Value.ordered_of_keys (show ["box", "size"].Pairwise (· < ·) by decide)
    (by simp [boxed, hbox])

/-- The thing as it is configured without its box. -/
def unboxed : Keyed Value := [("box", .null), ("size", .string "small")]

def boxTester : Tester Nat Unit := ⟨loneServer boxSchema, .standard⟩

/-- Configured without its box, the thing stays as it is stored. -/
theorem planUpdate_keeps_box :
    Diagnostics.hasError (boxSchema.plain.validate (.map unboxed)) = false ∧
    boxSchema.onlyAsks = true ∧ (Value.map unboxed).SettledIn (.map (boxed (.string "7"))) ∧
    PlansNoChange
      (planUpdate "lone_thing" (.map (boxed (.string "7"))) (.map unboxed) boxTester 0).1.1
      (.map (boxed (.string "7"))) := by
  have hconfig : (Value.map unboxed).Ordered := Value.ordered_of_keys (by decide) (by simp [unboxed])
  have hsettled : (Value.map unboxed).SettledIn (.map (boxed (.string "7"))) :=
    (proposedEntries_same_iff hconfig.ascending rfl).mp rfl
  have hconverges := planUpdate_changes_nothing_iff boxTester 0 "lone_thing" rfl rfl rfl rfl rfl rfl
    rfl hconfig (ordered_boxed (Value.ordered_string "7")) rfl rfl
  exact ⟨by decide, rfl, hsettled, hconverges.1 hsettled⟩

/-- Configured with its box as it is stored, but for the code that the provider decides, the thing
is to be replaced. -/
theorem planUpdate_replaces_box :
    let config : Value := .map (boxed .null)
    let stored : Value := .map (boxed (.string "7"))
    let answer := (planUpdate "lone_thing" stored config boxTester 0).1.1
    (∃ actions f, freshResource "lone_thing" ⟨0, boxTester.server, [], []⟩ =
        (some (actions, boxSchema), f) ∧ f.diagnostics = [] ∧ actions.modifyPlan = none) ∧
    boxSchema.hasNoDefaults = true ∧ boxSchema.usesBuiltIns = true ∧
    Diagnostics.hasError (boxSchema.plain.validate config) = false ∧
    boxSchema.plain.fillAbsent config = .ok config ∧
    boxSchema.plain.fillAbsent stored = .ok stored ∧
    stored.isFullyKnown = true ∧ config.agrees stored = true ∧
    Diagnostics.hasError answer.diagnostics = false ∧ answer.result.deferred.isNone = true ∧
    answer.result.state = .map (boxed .unknown) ∧ answer.result.state.same stored = false ∧
    answer.result.requiresReplace = [Path.root.field "box"] := by
  dsimp only
  have hfresh : freshResource "lone_thing" ⟨0, boxTester.server, [], []⟩ =
      (some (idleActions Nat, boxSchema),
        (freshResource "lone_thing" ⟨0, boxTester.server, [], []⟩).2) := rfl
  have hconfig : boxSchema.plain.fillAbsent (.map (boxed .null)) = .ok (.map (boxed .null)) := rfl
  have hstored : boxSchema.plain.fillAbsent (.map (boxed (.string "7"))) =
      .ok (.map (boxed (.string "7"))) := rfl
  obtain ⟨hstate, hreplaced⟩ := result_planUpdate hfresh rfl hconfig hstored
  have hplanned : (planUpdate "lone_thing" (.map (boxed (.string "7"))) (.map (boxed .null))
      boxTester 0).1.1.result.state = .map (boxed .unknown) := hstate.trans rfl
  have hnormalized : (planUpdate "lone_thing" (.map (boxed (.string "7"))) (.map (boxed .null))
      boxTester 0).1.1.result.requiresReplace = Path.normalize [Path.root.field "box"] :=
    hreplaced.trans rfl
  refine ⟨⟨_, _, hfresh, rfl, rfl⟩, rfl, rfl, by decide, hconfig, hstored, rfl, rfl,
    by decide +kernel, by decide +kernel, hplanned, ?_, ?_⟩
  · rw [hplanned]
    rfl
  · rw [hnormalized]
    simp [Path.normalize, Path.dropRepeated]

end Tester

end ProviderKit
