import ProviderKit.Proofs.Plan.Marks
import ProviderKit.Proofs.Plan.Replacement
import ProviderKit.Proofs.Plan.Traversal

-- What plan modifiers are told. A traversal goes down the configured and the prior value step by
-- step beside the path that it builds. Main statement: at every run of a modifier, the two values
-- are those that the whole configuration and the whole prior state have at the path.

namespace ProviderKit

variable {σ : Type}

/-! ## Calls -/

/-- The step makes calls that satisfy `Q` only. -/
def CallsOnly (Q : ModifierCall σ → Prop) (α : Type) (m : ModifyM σ α) : Prop :=
  ∀ log world, (∀ call ∈ log, Q call) → ∀ call ∈ (m log world).1.2, Q call

theorem composes_callsOnly (Q : ModifierCall σ → Prop) : Composes (CallsOnly Q) where
  pure _ _ _ hlog := hlog
  bind hm hf log world hlog := hf _ _ _ (hm log world hlog)

/-- The modifiers of one attribute are all told of the same path, and of the same configured and
prior value. -/
theorem callsOnly_runModifiers {Q : ModifierCall σ → Prop} {r : ModifyRequest} {path : Path}
    {config state : Value} {ms : List (PlanModifier σ)}
    (h : ∀ m ∈ ms, ∀ plan privateData response,
      Q ⟨m, { r.at path config state plan with privateData }, response⟩) (plan : Value) :
    CallsOnly Q _ (Modify.runModifiers r path config state ms plan) := by
  induction ms generalizing plan with
  | nil => exact (composes_callsOnly Q).pure _
  | cons m ms ih =>
    intro log world hlog
    rw [runModifiers_cons]
    have hsnoc : ∀ call, Q call → ∀ c ∈ log ++ [call], Q c := fun call hcall =>
      List.forall_mem_append.mpr ⟨hlog, List.forall_mem_singleton.mpr hcall⟩
    split
    · exact hsnoc _ (h m List.mem_cons_self plan _ _)
    · exact ih (fun m' hm' => h m' (List.mem_cons_of_mem _ hm')) _ _ _
        (hsnoc _ (h m List.mem_cons_self plan _ _))

/-! ## What stands at a path -/

/-- What stands one step further, or null, stands beside what the plan holds under the step. -/
theorem Value.atPathOrNull_push (v : Value) (path : Path) (s : Step) :
    v.atPathOrNull (path.push s) = (v.atPathOrNull path).beside s := by
  rw [atPathOrNull_eq, atPathOrNull_eq, reach?_push, beside_eq]
  cases v.reach? path.steps with
  | none => cases s <;> rfl
  | some w => rfl

/-! ## Coherent requests -/

/-- The modifier was told of the whole change, and of what the whole configuration and the whole
prior state have at the path; and where names are distinct, the path leads to the attribute that
the modifier is attached to. -/
structure ModifierCall.IsCoherent (s : ActiveSchema σ) (r : ModifyRequest) (call : ModifierCall σ) :
    Prop where
  config : call.request.config = r.config
  plan : call.request.plan = r.plan
  state : call.request.state = r.state
  configValue : call.request.configValue = r.config.raw.atPathOrNull call.request.path
  stateValue : call.request.stateValue = r.state.raw.atPathOrNull call.request.path
  declared : s.hasDistinctNames = true → ∃ a, s.attributeAt call.request.path = .ok a ∧
    call.modifier ∈ a.behaviour.planModifiers

/-- A traversal has come to a node with what stands at its path. -/
structure Arrives (s : ActiveSchema σ) (r : ModifyRequest) (n : Node (Behaviour σ)) (path : Path)
    (config state : Value) : Prop where
  config : config = r.config.raw.atPathOrNull path
  state : state = r.state.raw.atPathOrNull path
  node : s.hasDistinctNames = true → s.nodeAt path = .ok n ∧ n.hasDistinctNames = true

section

variable {s : ActiveSchema σ} {r : ModifyRequest} {n m : Node (Behaviour σ)} {path : Path}
  {config state : Value}

theorem Arrives.below (h : Arrives s r n path config state) {step : Step}
    (hm : n.Declares step m) :
    Arrives s r m (path.push step) (config.beside step) (state.beside step) where
  config := by rw [Value.atPathOrNull_push, h.config]
  state := by rw [Value.atPathOrNull_push, h.state]
  node hnames :=
    have ⟨hn, hdistinct⟩ := h.node hnames
    ⟨nodeAt_push hn (hm.leads hdistinct), hm.every hdistinct⟩

theorem Arrives.isCoherent {a : Attribute (Behaviour σ)} (h : Arrives s r (.attr a) path config state)
    {modifier : PlanModifier σ} (hmodifier : modifier ∈ a.behaviour.planModifiers) (plan : Value)
    (privateData : ProviderData) (response : ModifierResponse) :
    ModifierCall.IsCoherent s r
      ⟨modifier, { r.at path config state plan with privateData }, response⟩ where
  config := rfl
  plan := rfl
  state := rfl
  configValue := h.config
  stateValue := h.state
  declared hnames :=
    ⟨a, attributeAt_eq_ok_iff.mpr (nodeAt_eq_ok_iff.mp (h.node hnames).1), hmodifier⟩

theorem tours_isCoherent (s : ActiveSchema σ) (r : ModifyRequest) :
    Tours r (CallsOnly (ModifierCall.IsCoherent s r)) (Arrives s r) where
  composes := composes_callsOnly _
  modifiers plan h := callsOnly_runModifiers (fun _ hm => h.isCoherent hm) plan
  below h hm := h.below hm

theorem Schema.isCoherent_of_mem_calls (s : ActiveSchema σ) (r : ModifyRequest) (world : σ)
    {call : ModifierCall σ} (h : call ∈ (s.modifyPlan r world).1.calls) : call.IsCoherent s r := by
  have hroot : Arrives s r (.block s.root) .root r.config.raw r.state.raw :=
    ⟨rfl, rfl, fun hnames => ⟨rfl, hnames⟩⟩
  have hcalls := (tours_isCoherent s r).block s.root rfl hroot r.plan.raw [] world
  exact hcalls (fun _ hcall => by cases hcall) call h

end

/-! ## Private data -/

theorem ModifierLog.HandedOn.privateData_eq {start : ProviderData} {before after : ModifierLog σ}
    {call : ModifierCall σ} (h : HandedOn start (before ++ call :: after)) :
    call.request.privateData = privateData before start := by
  generalize hlog : before ++ call :: after = log at h
  induction h generalizing after with
  | nil => simp at hlog
  | @snoc log last _ hlast ih =>
    rcases List.eq_nil_or_concat after with rfl | ⟨after, last', rfl⟩
    · obtain ⟨rfl, heq⟩ := List.append_inj' hlog rfl
      cases heq
      exact hlast
    · rw [List.concat_eq_append, ← List.cons_append, ← List.append_assoc] at hlog
      exact ih (List.append_inj' hlog rfl).1

/-! ## Whole plans -/

/-- Each modifier is told of what the configuration and the prior state have at the path of its
attribute, and is handed the private data that the modifier before it left. -/
theorem modifyPlan_tells_coherently (s : ActiveSchema σ) (r : ModifyRequest) (world : σ)
    {before after : ModifierLog σ} {call : ModifierCall σ}
    (h : (s.modifyPlan r world).1.calls = before ++ call :: after) :
    call.IsCoherent s r ∧ call.request.privateData = before.privateData r.privateData := by
  have hmem : call ∈ (s.modifyPlan r world).1.calls := by
    rw [h]
    exact List.mem_append_right before List.mem_cons_self
  have hhanded := s.handedOn_modifyPlan r world
  rw [h] at hhanded
  exact ⟨s.isCoherent_of_mem_calls r world hmem, hhanded.privateData_eq⟩

/-- A modifier that keeps in the private data that it has run. -/
def notesRun : PlanModifier Unit :=
  .custom "" fun request =>
    pure { request.unchanged with privateData := (request.privateData.set "seen" [49]).1 }

/-- Rules in a set. Two modifiers look after their ports. -/
def portRules : ActiveSchema Unit :=
  let port : Attribute (Behaviour Unit) :=
    ⟨.string, .optionalOnly, none, none, none, ⟨[notesRun, .requiresReplace], none⟩⟩
  let rules : Attribute (Behaviour Unit) :=
    ⟨.dynamic, .optionalOnly, none, some ⟨.set, [("port", port)]⟩, none, ⟨[], none⟩⟩
  ⟨0, ⟨[("rules", rules)], [], none⟩⟩

/-- A rule with a port. -/
def portRule (port : String) : Value := .map [("port", .string port)]

/-- Rules with ports. -/
def withPorts (ports : List String) : Value := .map [("rules", .list (ports.map portRule))]

/-- The rule for port 443 is new. -/
def portChange : ModifyRequest :=
  let described (ports : List String) : Described := ⟨withPorts ports, portRules.plain⟩
  ⟨described ["80", "443"], described ["80", "443"], described ["80"], ⟨.null, .empty⟩, .empty⟩

/-- What a modifier of a port is told. -/
def portAsked (port : String) (stateValue : Value) (privateData : ProviderData) :
    ModifierRequest :=
  ⟨⟨[.field "rules", .element (portRule port), .field "port"]⟩, .string port, .string port,
    stateValue, portChange.config, portChange.plan, portChange.state, portChange.providerMeta,
    privateData⟩

theorem modifyPlan_tells_portRules_coherently :
    let seen := (ProviderData.empty.set "seen" [49]).1
    let asked := portAsked "80" (.string "80")
    let askedNew := portAsked "443" .null
    let before : ModifierLog Unit :=
      [⟨notesRun, asked .empty, { (asked .empty).unchanged with privateData := seen }⟩,
        ⟨.requiresReplace, asked seen, (asked seen).unchanged⟩]
    let call : ModifierCall Unit :=
      ⟨notesRun, askedNew seen, { (askedNew seen).unchanged with
        privateData := (seen.set "seen" [49]).1 }⟩
    let after : ModifierLog Unit :=
      [⟨.requiresReplace, askedNew (seen.set "seen" [49]).1,
        { (askedNew (seen.set "seen" [49]).1).unchanged with requiresReplace := true }⟩]
    (portRules.modifyPlan portChange ()).1.calls = before ++ call :: after ∧
    call.IsCoherent portRules portChange ∧
      call.request.privateData = before.privateData portChange.privateData :=
  ⟨rfl, modifyPlan_tells_coherently portRules portChange () rfl⟩

end ProviderKit
