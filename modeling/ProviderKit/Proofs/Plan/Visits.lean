import Mathlib.Data.List.Forall2
import ProviderKit.Proofs.Schema.Every
import ProviderKit.Proofs.Schema.Nesting
import ProviderKit.Proofs.Schema.Ordered
import ProviderKit.Proofs.Value.Equality
import ProviderKit.Plan.Modify

-- Runs of plan modifiers that leave the plan as it is. A traversal visits what a schema
-- declares with the planned value and with the configured and the prior value beside it. What
-- holds of the three at a node, and passes on to the nodes below, says what the modifiers do.

namespace ProviderKit

variable {σ : Type}

/-! ## Steps and what they give -/

/-- What is said of a step and of what it gives can be said of what is put together of such
steps. -/
structure Sequential (L : (α : Type) → ModifyM σ α → (α → Prop) → Prop) : Prop where
  pure {α : Type} {a : α} {P : α → Prop} : P a → L α (pure a) P
  bind {α γ : Type} {m : ModifyM σ α} {f : α → ModifyM σ γ} {P : α → Prop} {Q : γ → Prop} :
    L α m P → (∀ a, P a → L γ (f a) Q) → L γ (m >>= f) Q

theorem Sequential.bindEq {L : (α : Type) → ModifyM σ α → (α → Prop) → Prop} (hL : Sequential L)
    {α γ : Type} {m : ModifyM σ α} {f : α → ModifyM σ γ} {a : α} {Q : γ → Prop}
    (hm : L α m (· = a)) (hf : L γ (f a) Q) : L γ (m >>= f) Q :=
  hL.bind hm fun b hb => by
    rw [hb]
    exact hf

theorem Sequential.map {L : (α : Type) → ModifyM σ α → (α → Prop) → Prop} (hL : Sequential L)
    {α γ : Type} {m : ModifyM σ α} {a : α} (hm : L α m (· = a)) (f : α → γ) :
    L γ (do return f (← m)) (· = f a) := hL.bindEq hm (hL.pure rfl)

/-- Run after any calls, in any world, the step gives what satisfies `P`, leaves the world and the
private data alone, and makes calls that satisfy `Q` only. -/
def Leaves (start : ProviderData) (Q : ModifierCall σ → Prop) (α : Type) (m : ModifyM σ α)
    (P : α → Prop) : Prop :=
  ∀ log world, ModifierLog.privateData log start = start →
    ∃ a calls, m log world = ((a, log ++ calls), world) ∧ P a ∧
      ModifierLog.privateData (log ++ calls) start = start ∧ ∀ c ∈ calls, Q c

section

variable {α γ : Type} {start : ProviderData} {Q : ModifierCall σ → Prop}

theorem modifyM_bind (m : ModifyM σ α) (f : α → ModifyM σ γ) (log : ModifierLog σ) (world : σ) :
    (m >>= f) log world =
      f (m log world).1.1 (m log world).1.2 (m log world).2 := rfl

theorem modifyM_get (log : ModifierLog σ) (world : σ) :
    (get : ModifyM σ (ModifierLog σ)) log world = ((log, log), world) := rfl

theorem modifyM_set (log log' : ModifierLog σ) (world : σ) :
    (set log' : ModifyM σ Unit) log world = (((), log'), world) := rfl

theorem modifyM_lift (m : StateM σ α) (log : ModifierLog σ) (world : σ) :
    (liftM m : ModifyM σ α) log world = (((m world).1, log), (m world).2) := rfl

theorem leaves_pure {a : α} {P : α → Prop} (ha : P a) : Leaves start Q α (pure a) P := by
  intro log world hlog
  refine ⟨a, [], ?_, ha, ?_, ?_⟩
  · rw [List.append_nil]
    rfl
  · rw [List.append_nil]
    exact hlog
  · simp

theorem Leaves.bind {m : ModifyM σ α} {f : α → ModifyM σ γ} {P : α → Prop} {R : γ → Prop}
    (hm : Leaves start Q α m P) (hf : ∀ a, P a → Leaves start Q γ (f a) R) :
    Leaves start Q γ (m >>= f) R := by
  intro log world hlog
  obtain ⟨a, calls, hrun, ha, hlog', hcalls⟩ := hm log world hlog
  obtain ⟨c, more, hrun', hc, hlog'', hmore⟩ := hf a ha (log ++ calls) world hlog'
  refine ⟨c, calls ++ more, ?_, hc, ?_, ?_⟩
  · rw [modifyM_bind, hrun, ← List.append_assoc]
    exact hrun'
  · rw [← List.append_assoc]
    exact hlog''
  · intro call hc
    rcases List.mem_append.mp hc with hc | hc
    · exact hcalls call hc
    · exact hmore call hc

theorem sequential_leaves (start : ProviderData) (Q : ModifierCall σ → Prop) :
    Sequential (Leaves start Q) := ⟨leaves_pure, Leaves.bind⟩

/-- Run after any calls, in any world, the step gives what satisfies `P`. -/
def Gives (α : Type) (m : ModifyM σ α) (P : α → Prop) : Prop := ∀ log world, P (m log world).1.1

theorem sequential_gives : Sequential (Gives (σ := σ)) where
  pure ha _ _ := ha
  bind hm hf log world := hf _ (hm log world) _ _

end

/-! ## One attribute -/

/-- What a modifier is told about an attribute while the private data is still as it was. -/
def ModifyRequest.at (r : ModifyRequest) (path : Path) (config state plan : Value) :
    ModifierRequest :=
  ⟨path, config, plan, state, r.config, r.plan, r.state, r.providerMeta, r.privateData⟩

/-- The modifier answers without acting, and with the plan and the private data it was given. -/
def KeepsPlan (Q : ModifierCall σ → Prop) (m : PlanModifier σ) (request : ModifierRequest) : Prop :=
  ∃ response, m.modify request = pure response ∧ response.planValue = request.planValue ∧
    response.privateData = request.privateData ∧ response.diagnostics = [] ∧
    Q ⟨m, request, response⟩

section

open Modify

variable {r : ModifyRequest} {Q : ModifierCall σ → Prop} {path : Path} {config state plan : Value}

/-- A modifier is told of the private data that the log leaves, and its answer is noted at the end
of the log. -/
theorem runModifiers_cons (m : PlanModifier σ) (ms : List (PlanModifier σ)) (log : ModifierLog σ)
    (world : σ) :
    let request := { r.at path config state plan with
      privateData := log.privateData r.privateData }
    let said := m.modify request world
    let noted := log ++ [⟨m, request, said.1⟩]
    runModifiers r path config state (m :: ms) plan log world =
      if Diagnostics.hasError said.1.diagnostics then (((said.1.planValue, true), noted), said.2)
      else runModifiers r path config state ms said.1.planValue noted said.2 := by
  intro request said noted
  rw [runModifiers, modifyM_bind, modifyM_get]
  dsimp only
  rw [modifyM_bind, modifyM_lift, modifyM_bind, modifyM_set]
  dsimp only
  split
  · next herror => exact (if_pos herror).symm
  · next hok => exact (if_neg hok).symm

theorem runModifiers_of_pure {m : PlanModifier σ} (ms : List (PlanModifier σ))
    {log : ModifierLog σ} {response : ModifierResponse} (world : σ)
    (hlog : log.privateData r.privateData = r.privateData)
    (hm : m.modify (r.at path config state plan) = pure response)
    (hd : Diagnostics.hasError response.diagnostics = false) :
    runModifiers r path config state (m :: ms) plan log world =
      runModifiers r path config state ms response.planValue
        (log ++ [⟨m, r.at path config state plan, response⟩]) world := by
  have hm' : m.modify (r.at path config state plan) world = (response, world) := by
    rw [hm]
    rfl
  have hat : { r.at path config state plan with privateData := log.privateData r.privateData } =
      r.at path config state plan := by
    rw [hlog]
    rfl
  rw [runModifiers_cons, hat, hm']
  exact if_neg (Bool.eq_false_iff.mp hd)

theorem leaves_runModifiers {ms : List (PlanModifier σ)}
    (h : ∀ m ∈ ms, KeepsPlan Q m (r.at path config state plan)) :
    Leaves r.privateData Q _ (runModifiers r path config state ms plan) (·.1 = plan) := by
  induction ms with
  | nil => exact leaves_pure rfl
  | cons m ms ih =>
    intro log world hlog
    obtain ⟨response, hm, hplan, hprivate, hdiagnostics, hq⟩ := h m List.mem_cons_self
    have hlog' : ModifierLog.privateData (log ++ [⟨m, r.at path config state plan, response⟩])
        r.privateData = r.privateData := by
      simp [ModifierLog.privateData, hprivate, ModifyRequest.at]
    obtain ⟨done, calls, hrun, hdone, hlog'', hcalls⟩ :=
      ih (fun m' hm' => h m' (List.mem_cons_of_mem _ hm')) _ world hlog'
    refine ⟨done, ⟨m, r.at path config state plan, response⟩ :: calls, ?_, hdone, ?_, ?_⟩
    · have hplan : response.planValue = plan := hplan
      rw [runModifiers_of_pure ms world hlog hm (by rw [hdiagnostics]; rfl), hplan, hrun,
        List.append_assoc]
      rfl
    · rw [List.append_cons]
      exact hlog''
    · intro call hc
      rcases List.mem_cons.mp hc with hc | hc
      · rw [hc]
        exact hq
      · exact hcalls call hc

end

/-! ## One step further down -/

/-- A planned value holds another one step further down. An object holds null under every name
that it has no entry for. -/
inductive Value.Holds : Value → Step → Value → Prop
  | field (es : Keyed Value) (name : String) :
      Holds (.map es) (.field name) ((Keyed.get? es name).getD .null)
  | key {es : Keyed Value} {k : String} {x : Value} : Keyed.get? es k = some x →
      Holds (.map es) (.key k) x
  | index {xs : List Value} {i : Nat} {x : Value} : xs[i]? = some x → Holds (.list xs) (.index i) x
  | element {xs : List Value} {x : Value} : x ∈ xs → Holds (.list xs) (.element x) x

/-- What stands in a configured or prior value beside what the planned value holds. -/
def Value.beside (v : Value) : Step → Value
  | .field name => v.entryOrNull name
  | .key k => v.entryOrNull k
  | .index i => v.itemOrNull i
  | .element x => v.elementOrNull x

/-- What an object holds stands beside an equal value in an equal object, and so for lists, sets
and maps. -/
theorem Value.Holds.same_beside {v w x : Value} {s : Step} (h : v.Holds s x)
    (hs : v.same w = true) : x.same (w.beside s) = true := by
  cases h with
  | field es name => exact entryOrNull_same hs name
  | @key es k x hx =>
    have hk := entryOrNull_same hs k
    have he : (Value.map es).entryOrNull k = x := by
      rw [entryOrNull, entry?, hx]
      rfl
    rwa [he] at hk
  | @index xs i x hx =>
    have hi := itemOrNull_same hs i
    have he : (Value.list xs).itemOrNull i = x := by
      rw [itemOrNull, asItems?, Option.getD_some, hx]
      rfl
    rwa [he] at hi
  | element hx => exact elementOrNull_same hs hx

theorem Value.Holds.ordered {v x : Value} {s : Step} (h : v.Holds s x) (hv : v.Ordered) :
    x.Ordered := by
  cases h with
  | field es name =>
    cases hx : Keyed.get? es name with
    | none => exact .atom rfl
    | some x => exact hv.of_map (Keyed.mem_of_get? hx)
  | key hx => exact hv.of_map (Keyed.mem_of_get? hx)
  | index hx => exact hv.of_list (List.mem_of_getElem? hx)
  | element hx => exact hv.of_list hx

/-! ## Collections and objects -/

/-- Putting back what was there changes nothing. -/
theorem Modify.putBack_same {es : Keyed Value} (hes : Keyed.Ascending es) (name : String) :
    putBack es name (Keyed.get? es name) ((Keyed.get? es name).getD .null) = es := by
  unfold putBack
  cases h : Keyed.get? es name with
  | none => rfl
  | some v => exact Keyed.insert_of_get? hes h

theorem eq_of_forall₂ {α : Type} {R : α → α → Prop} (hR : ∀ a b, R a b → b = a) {as bs : List α}
    (h : List.Forall₂ R as bs) : bs = as := by
  have heq := h.imp fun a b hab => (hR a b hab).symm
  rw [List.forall₂_eq_eq_eq] at heq
  exact heq.symm

namespace Sequential

open Modify

variable {L : (α : Type) → ModifyM σ α → (α → Prop) → Prop} {r : ModifyRequest} {path : Path}
  {config state plan : Value} {visit : VisitObject σ}

theorem visitItems (hL : Sequential L) {R : Value → Value → Prop} {xs : List Value} {i : Nat}
    (h : ∀ (j : Nat) x, xs[j]? = some x →
      L _ (visit (path.index (i + j)) (config.itemOrNull (i + j)) (state.itemOrNull (i + j)) x)
        (R x)) :
    L _ (visitItems visit path config state i xs) (List.Forall₂ R xs) := by
  induction xs generalizing i with
  | nil => exact hL.pure .nil
  | cons x xs ih =>
    have hrest := ih (i := i + 1) (fun j y hy => by
      have := h (j + 1) y hy
      rwa [Nat.add_comm j 1, ← Nat.add_assoc] at this)
    refine hL.bind (h 0 x rfl) fun y hy => ?_
    exact hL.bind hrest fun ys hys => hL.pure (.cons hy hys)

theorem visitElements (hL : Sequential L) {R : Value → Value → Prop} {xs : List Value}
    (h : ∀ x ∈ xs,
      L _ (visit (path.element x) (config.elementOrNull x) (state.elementOrNull x) x) (R x)) :
    L _ (visitElements visit path config state xs) (List.Forall₂ R xs) := by
  induction xs with
  | nil => exact hL.pure .nil
  | cons x xs ih =>
    have hrest := ih (fun y hy => h y (List.mem_cons_of_mem _ hy))
    refine hL.bind (h x List.mem_cons_self) fun y hy => ?_
    exact hL.bind hrest fun ys hys => hL.pure (.cons hy hys)

theorem visitEntries (hL : Sequential L) {R : Value → Value → Prop} {es : List (String × Value)}
    (h : ∀ e ∈ es,
      L _ (visit (path.key e.1) (config.entryOrNull e.1) (state.entryOrNull e.1) e.2) (R e.2)) :
    L _ (visitEntries visit path config state es)
      (List.Forall₂ (fun e f => e.1 = f.1 ∧ R e.2 f.2) es) := by
  induction es with
  | nil => exact hL.pure .nil
  | cons e es ih =>
    obtain ⟨k, x⟩ := e
    have hrest := ih (fun f hf => h f (List.mem_cons_of_mem _ hf))
    refine hL.bind (h (k, x) List.mem_cons_self) fun y hy => ?_
    exact hL.bind hrest fun fs hfs => hL.pure (.cons ⟨rfl, hy⟩ hfs)

/-- A collection is left as it is when each of its objects is. -/
theorem visitCollection (hL : Sequential L) {n m : Node (Behaviour σ)} {mode : NestingMode}
    {attributes : List (String × Attribute (Behaviour σ))}
    {blocks : List (String × NestedBlock (Behaviour σ))}
    (hv : n.view = Node.collected mode attributes blocks m) (hplan : plan.Ordered)
    (hsingle : n.view = .object attributes blocks →
      L _ (visit path config state plan) (· = plan))
    (hbelow : ∀ s x, n.Declares s m → plan.Holds s x →
      L _ (visit (path.push s) (config.beside s) (state.beside s) x) (· = x)) :
    L _ (visitCollection mode visit path config state plan) (· = plan) := by
  cases mode with
  | single => exact hsingle hv
  | list =>
    cases plan
    case list xs =>
      refine hL.bind (hL.visitItems (R := fun x y => y = x) fun j x hx => ?_) fun ys hys =>
        hL.pure (congrArg _ (eq_of_forall₂ (fun _ _ h => h) hys))
      rw [Nat.zero_add]
      exact hbelow (.index j) x (.item j hv) (.index hx)
    all_goals exact hL.pure rfl
  | set =>
    cases plan
    case list xs =>
      refine hL.bind (hL.visitElements (R := fun x y => y = x) fun x hx => ?_) fun ys hys =>
        hL.pure (congrArg _ (eq_of_forall₂ (fun _ _ h => h) hys))
      exact hbelow (.element x) x (.element x hv) (.element hx)
    all_goals exact hL.pure rfl
  | map =>
    cases plan
    case map es =>
      refine hL.bind (hL.visitEntries (R := fun x y => y = x) fun e he => ?_) fun fs hfs =>
        hL.pure (congrArg _ (eq_of_forall₂ (fun _ _ h => Prod.ext h.1.symm h.2) hfs))
      exact hbelow (.key e.1) e.2 (.entry e.1 hv) (.key (Keyed.get?_of_mem hplan.ascending he))
    all_goals exact hL.pure rfl

theorem onObject (hL : Sequential L) {onEntries : Keyed Value → ModifyM σ (Keyed Value)}
    (h : ∀ es, plan = .map es → L _ (onEntries es) (· = es)) :
    L _ (onObject onEntries plan) (· = plan) := by
  cases plan
  case map es => exact hL.map (h es rfl) _
  all_goals exact hL.pure rfl

theorem visitAttributes (hL : Sequential L)
    {attributes : List (String × Attribute (Behaviour σ))} {es : Keyed Value}
    (hes : Keyed.Ascending es)
    (h : ∀ e ∈ attributes,
      L _ (visitAttribute r e.2 (path.field e.1) (config.entryOrNull e.1) (state.entryOrNull e.1)
        ((Keyed.get? es e.1).getD .null)) (· = (Keyed.get? es e.1).getD .null)) :
    L _ (visitAttributes r attributes path config state es) (· = es) := by
  induction attributes with
  | nil =>
    rw [Modify.visitAttributes]
    exact hL.pure rfl
  | cons e rest ih =>
    obtain ⟨name, a⟩ := e
    rw [Modify.visitAttributes]
    refine hL.bindEq (h (name, a) List.mem_cons_self) ?_
    rw [putBack_same hes]
    exact ih (fun f hf => h f (List.mem_cons_of_mem _ hf))

theorem visitBlocks (hL : Sequential L) {blocks : List (String × NestedBlock (Behaviour σ))}
    {es : Keyed Value} (hes : Keyed.Ascending es)
    (h : ∀ e ∈ blocks, ∀ before, Keyed.get? es e.1 = some before →
      L _ (Modify.visitCollection e.2.mode (visitBlock r e.2.block) (path.field e.1)
        (config.entryOrNull e.1) (state.entryOrNull e.1) before) (· = before)) :
    L _ (visitBlocks r blocks path config state es) (· = es) := by
  induction blocks with
  | nil =>
    rw [Modify.visitBlocks]
    exact hL.pure rfl
  | cons e rest ih =>
    obtain ⟨name, ⟨b, mode, minItems, maxItems⟩⟩ := e
    have hrest := ih (fun f hf => h f (List.mem_cons_of_mem _ hf))
    rw [Modify.visitBlocks]
    cases hb : Keyed.get? es name with
    | none => exact hrest
    | some before =>
      refine hL.bindEq (h (name, ⟨b, mode, minItems, maxItems⟩) List.mem_cons_self before hb) ?_
      rw [Keyed.insert_of_get? hes hb]
      exact hrest

end Sequential

/-! ## Whole plans -/

/-- What holds of the configured, the prior and the planned value at a node holds at the nodes
declared below as well, and where it holds of an attribute, its modifiers leave the planned value
as it is. -/
structure LeavesPlan (r : ModifyRequest) (L : (α : Type) → ModifyM σ α → (α → Prop) → Prop)
    (R : Node (Behaviour σ) → Path → Value → Value → Value → Prop) : Prop where
  sequential : Sequential L
  modifiers : ∀ {a path config state plan}, R (.attr a) path config state plan →
    L _ (Modify.runModifiers r path config state a.behaviour.planModifiers plan) (·.1 = plan)
  below : ∀ {n m path config state plan s x}, R n path config state plan → n.Declares s m →
    plan.Holds s x → R m (path.push s) (config.beside s) (state.beside s) x

section

open Modify

variable {r : ModifyRequest} {L : (α : Type) → ModifyM σ α → (α → Prop) → Prop}
  {R : Node (Behaviour σ) → Path → Value → Value → Value → Prop} {path : Path}
  {config state plan : Value}

theorem visitAttribute_eq (r : ModifyRequest) (a : Attribute (Behaviour σ)) (path : Path)
    (config state plan : Value) :
    visitAttribute r a path config state plan = (do
      let (plan, failed) ← runModifiers r path config state a.behaviour.planModifiers plan
      if failed then return plan
      else
        match a.nested with
        | none => return plan
        | some ⟨mode, attributes⟩ =>
          visitCollection mode
            (fun path config state plan =>
              onObject (visitAttributes r attributes path config state) plan)
            path config state plan) := by
  cases a
  unfold visitAttribute
  rfl

theorem visitBlock_eq (r : ModifyRequest) (b : Block (Behaviour σ)) (path : Path)
    (config state plan : Value) :
    visitBlock r b path config state plan = onObject (fun es => do
      let es ← visitAttributes r b.attributes path config state es
      visitBlocks r b.blocks path config state es) plan := by
  cases b
  rw [visitBlock]

/-- The attributes of an object are left as they are when each of them is. -/
theorem LeavesPlan.attributes (hR : LeavesPlan r L R) {n : Node (Behaviour σ)}
    {attributes : List (String × Attribute (Behaviour σ))}
    {blocks : List (String × NestedBlock (Behaviour σ))} {es : Keyed Value}
    (hv : n.view = .object attributes blocks) (hn : R n path config state (.map es))
    (hes : (Value.map es).Ordered)
    (ih : ∀ e ∈ attributes, ∀ {path config state plan}, R (.attr e.2) path config state plan →
      plan.Ordered → L _ (visitAttribute r e.2 path config state plan) (· = plan)) :
    L _ (visitAttributes r attributes path config state es) (· = es) := by
  refine hR.sequential.visitAttributes hes.ascending (fun e he => ?_)
  have hholds := Value.Holds.field es e.1
  exact ih e he (hR.below hn (.attr hv he) hholds) (hholds.ordered hes)

theorem LeavesPlan.attribute (hR : LeavesPlan r L R) (a : Attribute (Behaviour σ))
    (ha : R (.attr a) path config state plan) (hplan : plan.Ordered) :
    L _ (visitAttribute r a path config state plan) (· = plan) := by
  have hL := hR.sequential
  induction a using Attribute.nestedInduction generalizing path config state plan with
  | step a ih =>
    rw [visitAttribute_eq]
    refine hL.bind (hR.modifiers ha) fun done hdone => ?_
    obtain ⟨plan, failed⟩ := done
    subst hdone
    dsimp only
    split
    · exact hL.pure rfl
    · cases hn : a.nested with
      | none => exact hL.pure rfl
      | some nested =>
        obtain ⟨mode, attributes⟩ := nested
        have hview : (Node.attr a).view =
            Node.collected mode attributes [] (.nestedObject attributes) := by rw [Node.view, hn]
        have hnested : ∀ e ∈ attributes, ∀ {path config state plan},
            R (.attr e.2) path config state plan → plan.Ordered →
            L _ (visitAttribute r e.2 path config state plan) (· = plan) :=
          fun e he {_ _ _ _} => ih _ hn e he
        refine hL.visitCollection hview hplan (fun hv => ?_) (fun s x hs hx => ?_)
        · refine hL.onObject (fun es hes => ?_)
          subst hes
          exact hR.attributes hv ha hplan hnested
        · have hobject := hR.below ha hs hx
          have hx := hx.ordered hplan
          refine hL.onObject (fun es hes => ?_)
          subst hes
          exact hR.attributes rfl hobject hx hnested

/-- The object of a block, at the root, at a single block or in a collection, is left as it is. -/
theorem LeavesPlan.block (hR : LeavesPlan r L R) (b : Block (Behaviour σ))
    {n : Node (Behaviour σ)} (hv : n.view = .object b.attributes b.blocks)
    (hn : R n path config state plan) (hplan : plan.Ordered) :
    L _ (visitBlock r b path config state plan) (· = plan) := by
  have hL := hR.sequential
  induction b using Block.nestedInduction generalizing n path config state plan with
  | step b ih =>
    rw [visitBlock_eq]
    refine hL.onObject (fun es hes => ?_)
    subst hes
    have hattributes := hR.attributes hv hn hplan (fun e _ {_ _ _ _} => hR.attribute e.2)
    refine hL.bindEq hattributes ?_
    refine hL.visitBlocks hplan.ascending (fun e he before hbefore => ?_)
    have hfield : (Value.map es).Holds (.field e.1) before := by
      have := Value.Holds.field es e.1
      rwa [hbefore] at this
    have hblock := hR.below hn (.block hv he) hfield
    have hordered := hfield.ordered hplan
    refine hL.visitCollection (n := .nestedBlock e.2) (m := .block e.2.block) rfl
      hordered (fun hv => ?_) (fun s x hs hx => ?_)
    · exact ih e he hv hblock hordered
    · exact ih e he rfl (hR.below hblock hs hx) (hx.ordered hordered)

end

theorem Schema.modifyPlan_eq (s : ActiveSchema σ) (r : ModifyRequest) (world : σ) :
    s.modifyPlan r world =
      (let result := Modify.visitBlock r s.root .root r.config.raw r.state.raw r.plan.raw [] world
      let log := result.1.2
      (⟨{ r.plan with raw := result.1.1 }, log.requiresReplace, log.diagnostics,
        log.privateData r.privateData, log⟩, result.2)) := rfl

/-- What holds of the configured, the prior and the planned value at a node holds at the nodes
declared below as well, and where it holds of an attribute, each of its modifiers keeps the plan
and does nothing else. -/
structure Passes (r : ModifyRequest) (Q : ModifierCall σ → Prop)
    (R : Node (Behaviour σ) → Path → Value → Value → Value → Prop) : Prop where
  modifier : ∀ {a path config state plan}, R (.attr a) path config state plan →
    ∀ m ∈ a.behaviour.planModifiers, KeepsPlan Q m (r.at path config state plan)
  below : ∀ {n m path config state plan s x}, R n path config state plan → n.Declares s m →
    plan.Holds s x → R m (path.push s) (config.beside s) (state.beside s) x

section

variable {r : ModifyRequest} {Q : ModifierCall σ → Prop}
  {R : Node (Behaviour σ) → Path → Value → Value → Value → Prop}

theorem Passes.leavesPlan (hR : Passes r Q R) : LeavesPlan r (Leaves r.privateData Q) R :=
  ⟨sequential_leaves _ _, fun ha => leaves_runModifiers (hR.modifier ha), hR.below⟩

/-- A plan that every modifier keeps is the plan that comes out, in the same world, with the same
private data. -/
theorem Passes.modifyPlan (hR : Passes r Q R) {s : ActiveSchema σ}
    (hroot : R (.block s.root) .root r.config.raw r.state.raw r.plan.raw)
    (hplan : r.plan.raw.Ordered) (world : σ) :
    ∃ calls : ModifierLog σ, s.modifyPlan r world =
      (⟨r.plan, calls.requiresReplace, calls.diagnostics, r.privateData, calls⟩, world) ∧
      ∀ c ∈ calls, Q c := by
  obtain ⟨plan, calls, hrun, rfl, hprivate, hcalls⟩ :=
    hR.leavesPlan.block s.root rfl hroot hplan [] world rfl
  rw [List.nil_append] at hrun hprivate
  refine ⟨calls, ?_, hcalls⟩
  rw [Schema.modifyPlan_eq, hrun]
  simp only [hprivate]

end

end ProviderKit
