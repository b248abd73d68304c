import ProviderKit.Proofs.Plan.Visits
import ProviderKit.Proofs.Provider.Conduct
import ProviderKit.Proofs.Schema.Behaviours

-- What passes on from the modifiers of single attributes to a traversal of the whole plan. A
-- traversal goes down the configured and the prior value beside the plan, so what holds of the two
-- at each node can be used where the modifiers run. What every traversal does is said at the end:
-- each modifier is handed the private data that the one before left, and running all of them keeps a
-- conduct if every modifier does.

namespace ProviderKit

variable {σ : Type}

/-- A property of steps holds of what is put together of steps that have it. -/
structure Composes (K : (α : Type) → ModifyM σ α → Prop) : Prop where
  pure {α : Type} (a : α) : K α (pure a)
  bind {α γ : Type} {m : ModifyM σ α} {f : α → ModifyM σ γ} :
    K α m → (∀ a, K γ (f a)) → K γ (m >>= f)

/-- What holds of the configured and the prior value at a node holds at the nodes declared below as
well, and where it holds of an attribute, running its modifiers has the property. -/
structure Tours (r : ModifyRequest) (K : (α : Type) → ModifyM σ α → Prop)
    (R : Node (Behaviour σ) → Path → Value → Value → Prop) : Prop where
  composes : Composes K
  modifiers : ∀ {a path config state} plan, R (.attr a) path config state →
    K _ (Modify.runModifiers r path config state a.behaviour.planModifiers plan)
  below : ∀ {n m path config state s}, R n path config state → n.Declares s m →
    R m (path.push s) (config.beside s) (state.beside s)

namespace Composes

open Modify

variable {K : (α : Type) → ModifyM σ α → Prop} {visit : VisitObject σ} {path : Path}
  {config state : Value}

theorem map (hK : Composes K) {α γ : Type} {m : ModifyM σ α} (hm : K α m) (f : α → γ) :
    K γ (do return f (← m)) := hK.bind hm fun a => hK.pure (f a)

/-! ## Collections -/

theorem visitItems (hK : Composes K)
    (h : ∀ i x, K _ (visit (path.index i) (config.itemOrNull i) (state.itemOrNull i) x)) (i : Nat)
    (xs : List Value) : K _ (visitItems visit path config state i xs) := by
  induction xs generalizing i with
  | nil => exact hK.pure _
  | cons x xs ih => exact hK.bind (h i x) fun y => hK.map (ih (i + 1)) (y :: ·)

theorem visitElements (hK : Composes K)
    (h : ∀ x, K _ (visit (path.element x) (config.elementOrNull x) (state.elementOrNull x) x))
    (xs : List Value) : K _ (visitElements visit path config state xs) := by
  induction xs with
  | nil => exact hK.pure _
  | cons x xs ih => exact hK.bind (h x) fun y => hK.map ih (y :: ·)

theorem visitEntries (hK : Composes K)
    (h : ∀ k x, K _ (visit (path.key k) (config.entryOrNull k) (state.entryOrNull k) x))
    (es : List (String × Value)) : K _ (visitEntries visit path config state es) := by
  induction es with
  | nil => exact hK.pure _
  | cons e es ih => exact hK.bind (h e.1 e.2) fun y => hK.map ih ((e.1, y) :: ·)

theorem visitCollection (hK : Composes K) {n m : Node (Behaviour σ)} {mode : NestingMode}
    {attributes : List (String × Attribute (Behaviour σ))}
    {blocks : List (String × NestedBlock (Behaviour σ))}
    (hv : n.view = Node.collected mode attributes blocks m)
    (hsingle : n.view = .object attributes blocks → ∀ plan, K _ (visit path config state plan))
    (hbelow : ∀ s, n.Declares s m →
      ∀ plan, K _ (visit (path.push s) (config.beside s) (state.beside s) plan)) (plan : Value) :
    K _ (visitCollection mode visit path config state plan) := by
  unfold Modify.visitCollection
  split
  · exact hsingle hv _
  · exact hK.map (hK.visitItems (fun i => hbelow (.index i) (.item i hv)) 0 _) Value.list
  · exact hK.map (hK.visitElements (fun x => hbelow (.element x) (.element x hv) x) _) Value.list
  · exact hK.map (hK.visitEntries (fun k => hbelow (.key k) (.entry k hv)) _) Value.map
  · exact hK.pure _

/-! ## Objects -/

theorem onObject (hK : Composes K) {onEntries : Keyed Value → ModifyM σ (Keyed Value)}
    (h : ∀ es, K _ (onEntries es)) (plan : Value) : K _ (onObject onEntries plan) := by
  unfold Modify.onObject
  split
  · exact hK.map (h _) Value.map
  · exact hK.pure _

variable {r : ModifyRequest} {attributes : List (String × Attribute (Behaviour σ))}
  {blocks : List (String × NestedBlock (Behaviour σ))}

theorem visitAttributes (hK : Composes K)
    (h : ∀ e ∈ attributes, ∀ plan, K _ (visitAttribute r e.2 (path.field e.1)
      (config.entryOrNull e.1) (state.entryOrNull e.1) plan)) (es : Keyed Value) :
    K _ (visitAttributes r attributes path config state es) := by
  induction attributes generalizing es with
  | nil =>
    rw [Modify.visitAttributes]
    exact hK.pure _
  | cons e rest ih =>
    rw [Modify.visitAttributes]
    exact hK.bind (h e List.mem_cons_self _) fun _ =>
      ih (fun f hf => h f (List.mem_cons_of_mem _ hf)) _

theorem visitBlocks (hK : Composes K)
    (h : ∀ e ∈ blocks, ∀ plan, K _ (Modify.visitCollection e.2.mode (visitBlock r e.2.block)
      (path.field e.1) (config.entryOrNull e.1) (state.entryOrNull e.1) plan)) (es : Keyed Value) :
    K _ (visitBlocks r blocks path config state es) := by
  induction blocks generalizing es with
  | nil =>
    rw [Modify.visitBlocks]
    exact hK.pure _
  | cons e rest ih =>
    obtain ⟨name, ⟨b, mode, minItems, maxItems⟩⟩ := e
    have hrest := ih fun f hf => h f (List.mem_cons_of_mem _ hf)
    rw [Modify.visitBlocks]
    cases Keyed.get? es name with
    | none => exact hrest es
    | some before => exact hK.bind (h _ List.mem_cons_self before) fun _ => hrest _

end Composes

/-! ## Attributes and blocks -/

section

open Modify

variable {r : ModifyRequest} {K : (α : Type) → ModifyM σ α → Prop}
  {R : Node (Behaviour σ) → Path → Value → Value → Prop} {path : Path} {config state : Value}

theorem Tours.attribute (hR : Tours r K R) (a : Attribute (Behaviour σ))
    (ha : R (.attr a) path config state) (plan : Value) :
    K _ (visitAttribute r a path config state plan) := by
  have hK := hR.composes
  induction a using Attribute.nestedInduction generalizing path config state plan with
  | step a ih =>
    rw [visitAttribute_eq]
    refine hK.bind (hR.modifiers plan ha) fun done => ?_
    dsimp only
    split
    · exact hK.pure _
    · cases hnested : a.nested with
      | none => exact hK.pure _
      | some nested =>
        obtain ⟨mode, attributes⟩ := nested
        have hview : (Node.attr a).view =
            Node.collected mode attributes [] (.nestedObject attributes) := by
          rw [Node.view, hnested]
        have hobject : ∀ {n path config state}, n.view = .object attributes [] →
            R n path config state → ∀ plan,
            K _ (onObject (visitAttributes r attributes path config state) plan) := by
          intro n path config state hv hn plan
          refine hK.onObject (hK.visitAttributes fun e he plan => ?_) plan
          exact ih _ hnested e he (hR.below hn (.attr hv he)) plan
        exact hK.visitCollection hview (fun hv plan => hobject hv ha plan)
          (fun s hs plan => hobject rfl (hR.below ha hs) plan) done.1

/-- The object of a block, at the root, at a single block or in a collection, has the property. -/
theorem Tours.block (hR : Tours r K R) (b : Block (Behaviour σ)) {n : Node (Behaviour σ)}
    (hv : n.view = .object b.attributes b.blocks) (hn : R n path config state) (plan : Value) :
    K _ (visitBlock r b path config state plan) := by
  have hK := hR.composes
  induction b using Block.nestedInduction generalizing n path config state plan with
  | step b ih =>
    rw [visitBlock_eq]
    refine hK.onObject (fun es => ?_) plan
    refine hK.bind (hK.visitAttributes (fun e he plan => ?_) es) fun es =>
      hK.visitBlocks (fun e he plan => ?_) es
    · exact hR.attribute e.2 (hR.below hn (.attr hv he)) plan
    · have hblock := hR.below hn (.block hv he)
      exact hK.visitCollection (n := .nestedBlock e.2) (m := .block e.2.block) rfl
        (fun hv plan => ih e he hv hblock plan)
        (fun s hs plan => ih e he rfl (hR.below hblock hs) plan) plan

/-- What holds of the runs of the modifiers of each attribute, wherever they run, holds of visiting
the block. -/
theorem Composes.visitBlock (hK : Composes K) (b : Block (Behaviour σ))
    (h : ∀ behaviour ∈ b.behaviours, ∀ path config state plan,
      K (Value × Bool) (runModifiers r path config state behaviour.planModifiers plan))
    (path : Path) (config state plan : Value) : K Value (visitBlock r b path config state plan) := by
  let R (n : Node (Behaviour σ)) (_ : Path) (_ _ : Value) : Prop :=
    ∀ behaviour ∈ n.behaviours, ∀ path config state plan,
      K (Value × Bool) (runModifiers r path config state behaviour.planModifiers plan)
  have hR : Tours r K R :=
    { composes := hK
      modifiers := fun {a path config state} plan ha => by
        refine ha a.behaviour ?_ path config state plan
        rw [Node.behaviours, a.behaviours_eq]
        exact List.mem_cons_self
      below := fun hn hs behaviour hb => hn behaviour (hs.behaviours hb) }
  exact hR.block (n := .block b) b rfl h plan

end

/-! ## Private data -/

/-- Each modifier is handed the private data that the one before left, the first one what there was
at the start. -/
inductive ModifierLog.HandedOn (start : ProviderData) : ModifierLog σ → Prop
  | nil : HandedOn start []
  | snoc {log : ModifierLog σ} {call : ModifierCall σ} : HandedOn start log →
      call.request.privateData = log.privateData start → HandedOn start (log ++ [call])

/-- The first modifier to run gets what there was at the start. -/
theorem ModifierLog.HandedOn.head? {start : ProviderData} {log : ModifierLog σ}
    (h : HandedOn start log) {call : ModifierCall σ} (hcall : log.head? = some call) :
    call.request.privateData = start := by
  induction h with
  | nil => cases hcall
  | @snoc log last _ hlast ih =>
    cases log with
    | nil =>
      cases hcall
      exact hlast
    | cons first rest =>
      rw [List.cons_append, List.head?_cons] at hcall
      exact ih hcall

/-- The step goes on handing private data on. -/
def HandsOn (start : ProviderData) (α : Type) (m : ModifyM σ α) : Prop :=
  ∀ log world, ModifierLog.HandedOn start log → ModifierLog.HandedOn start (m log world).1.2

theorem composes_handsOn (start : ProviderData) : Composes (HandsOn (σ := σ) start) where
  pure _ _ _ hlog := hlog
  bind hm hf log world hlog := hf _ _ _ (hm log world hlog)

theorem handsOn_runModifiers (r : ModifyRequest) (path : Path) (config state : Value)
    (ms : List (PlanModifier σ)) (plan : Value) :
    HandsOn r.privateData _ (Modify.runModifiers r path config state ms plan) := by
  induction ms generalizing plan with
  | nil => exact (composes_handsOn _).pure _
  | cons m ms ih =>
    intro log world hlog
    rw [runModifiers_cons]
    split
    · exact hlog.snoc rfl
    · exact ih _ _ _ (hlog.snoc rfl)

theorem Schema.handedOn_modifyPlan (s : ActiveSchema σ) (r : ModifyRequest) (world : σ) :
    ModifierLog.HandedOn r.privateData (s.modifyPlan r world).1.calls :=
  (composes_handsOn r.privateData).visitBlock s.root
    (fun _ _ path config state plan => handsOn_runModifiers r path config state _ plan)
    .root _ _ _ [] world .nil

/-! ## Conduct -/

section

variable {C : Conduct σ}

theorem PlanModifier.Keeps.modify {m : PlanModifier σ} (h : m.Keeps C) (r : ModifierRequest) :
    C.Keeps (m.modify r) (·.diagnostics) := by
  cases m with
  | requiresReplace => exact C.pure rfl
  | requiresReplaceIf description check =>
    rw [PlanModifier.modify]
    split
    · exact C.bind (fun _ _ => []) (h r) (fun _ => C.pure rfl) fun _ =>
        (List.append_nil _).symm
    · exact C.pure rfl
  | useStateForUnknown =>
    rw [PlanModifier.modify]
    split
    · exact C.pure rfl
    · exact C.pure rfl
  | custom description modify => exact h r

/-- What a run of a modifier reported. -/
def ModifierCall.reported (call : ModifierCall σ) : Diagnostics := call.response.diagnostics

namespace Modify

theorem composes_logs : Composes fun _ m => C.Logs ModifierCall.reported m where
  pure := Conduct.logs_pure
  bind := Conduct.Logs.bind

theorem logs_runModifiers (r : ModifyRequest) (path : Path) (config state plan : Value)
    {ms : List (PlanModifier σ)} (h : ∀ m ∈ ms, m.Keeps C) :
    C.Logs ModifierCall.reported (runModifiers r path config state ms plan) := by
  induction ms generalizing plan with
  | nil => exact Conduct.logs_pure _
  | cons m ms ih =>
    refine Conduct.Logs.record (·.diagnostics)
      (fun log => (h m List.mem_cons_self).modify _) (fun _ _ => rfl) fun log response => ?_
    split
    · exact Conduct.logs_pure _
    · exact ih _ fun m' hm' => h m' (List.mem_cons_of_mem _ hm')

theorem logs_visitBlock (r : ModifyRequest) (b : Block (Behaviour σ))
    (h : ∀ behaviour ∈ b.behaviours, behaviour.Keeps C) (path : Path) (config state plan : Value) :
    C.Logs ModifierCall.reported (visitBlock r b path config state plan) :=
  composes_logs.visitBlock b
    (fun behaviour hb path config state plan =>
      logs_runModifiers r path config state plan (h behaviour hb).modifiers)
    path config state plan

end Modify

/-- Running all modifiers keeps a conduct, and reports what their runs say. -/
theorem Schema.Keeps.modifyPlan {s : ActiveSchema σ} (h : s.Keeps C) (r : ModifyRequest) :
    C.Keeps (s.modifyPlan r) fun m => m.calls.flatMap ModifierCall.reported := by
  have hlogs := Modify.logs_visitBlock r s.root h .root r.config.raw r.state.raw r.plan.raw
  let give (raw : Value) (log : ModifierLog σ) : Modified σ :=
    ⟨{ r.plan with raw := raw }, log.requiresReplace, log.diagnostics,
      log.privateData r.privateData, log⟩
  exact hlogs.run give fun _ _ => rfl

end

end ProviderKit
