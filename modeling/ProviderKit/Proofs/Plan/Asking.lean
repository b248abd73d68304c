import ProviderKit.Proofs.Plan.Visits

-- The paths that a traversal collects, where an attribute has at most the one plan modifier that
-- asks for replacement. A traversal comes to each child of a node once and the paths below two
-- children part, so what it collects below a node is what it collects below the children.

namespace ProviderKit

variable {σ : Type}

/-! ## Paths apart -/

namespace Path

theorem sameSteps_append_left (above ss ts : List Step) :
    sameSteps (above ++ ss) (above ++ ts) = sameSteps ss ts := by
  induction above with
  | nil => rfl
  | cons s above ih =>
    rw [List.cons_append, List.cons_append, sameSteps, s.same_self, ih, Bool.true_and]

/-- Paths that part are not the same. -/
theorem same_eq_false_of_part {above ss ts : List Step} {s t : Step} {p q : Path}
    (hp : p.steps = above ++ s :: ss) (hq : q.steps = above ++ t :: ts) (hst : s.same t = false) :
    p.same q = false := by
  rw [same, hp, hq, sameSteps_append_left, sameSteps, hst, Bool.false_and]

/-- A path is not the same as one that goes on below it. -/
theorem same_eq_false_of_below {above ts : List Step} {t : Step} {p q : Path}
    (hp : p.steps = above) (hq : q.steps = above ++ t :: ts) : p.same q = false := by
  have hnil : above = above ++ [] := (List.append_nil above).symm
  rw [same, hp, hq, hnil, List.append_assoc, sameSteps_append_left]
  rfl

end Path

/-! ## What a step asks for -/

/-- Run after any calls, in any world, the step gives `a`, leaves the world and the private data
alone, reports nothing, and asks for replacement at the paths that satisfy `Q`, at none twice. -/
def Asks (start : ProviderData) {α : Type} (m : ModifyM σ α) (a : α) (Q : Path → Prop) : Prop :=
  ∀ log world, ModifierLog.privateData log start = start →
    ∃ calls : ModifierLog σ, m log world = ((a, log ++ calls), world) ∧
      ModifierLog.privateData (log ++ calls) start = start ∧ calls.diagnostics = [] ∧
      calls.requiresReplace.Pairwise (fun p q => p.same q = false) ∧
      ∀ p, p ∈ calls.requiresReplace ↔ Q p

namespace Asks

variable {α γ : Type} {start : ProviderData} {m : ModifyM σ α} {f : α → ModifyM σ γ} {a : α} {b : γ}
  {Q R : Path → Prop}

theorem congr (h : Asks start m a Q) (hiff : ∀ p, R p ↔ Q p) : Asks start m a R := by
  have heq : R = Q := funext fun p => propext (hiff p)
  rw [heq]
  exact h

theorem pure (start : ProviderData) (a : α) (hQ : ∀ p, ¬ Q p) :
    Asks start (pure a : ModifyM σ α) a Q := by
  intro log world hlog
  refine ⟨[], ?_, ?_, rfl, .nil, fun p => ⟨fun hp => ?_, fun hp => absurd hp (hQ p)⟩⟩
  · rw [List.append_nil]
    rfl
  · rw [List.append_nil]
    exact hlog
  · cases hp

theorem bind (hm : Asks start m a Q) (hf : Asks start (f a) b R)
    (hapart : ∀ p q, Q p → R q → p.same q = false) :
    Asks start (m >>= f) b (fun p => Q p ∨ R p) := by
  intro log world hlog
  obtain ⟨calls, hrun, hlog', hdiagnostics, hpairwise, hpaths⟩ := hm log world hlog
  obtain ⟨more, hrun', hlog'', hdiagnostics', hpairwise', hpaths'⟩ :=
    hf (log ++ calls) world hlog'
  have hreplace : (calls ++ more : ModifierLog σ).requiresReplace =
      calls.requiresReplace ++ more.requiresReplace := List.filterMap_append ..
  refine ⟨calls ++ more, ?_, ?_, ?_, ?_, fun p => ?_⟩
  · rw [modifyM_bind, hrun, ← List.append_assoc]
    exact hrun'
  · rw [← List.append_assoc]
    exact hlog''
  · unfold ModifierLog.diagnostics at hdiagnostics hdiagnostics' ⊢
    rw [List.flatMap_append, hdiagnostics, hdiagnostics', List.append_nil]
  · rw [hreplace, List.pairwise_append]
    refine ⟨hpairwise, hpairwise', fun p hp q hq => ?_⟩
    exact hapart p q ((hpaths p).mp hp) ((hpaths' q).mp hq)
  · rw [hreplace, List.mem_append, hpaths, hpaths']

theorem map (hm : Asks start m a Q) (g : α → γ) : Asks start (do return g (← m)) (g a) Q := by
  have hpure : Asks start (Pure.pure (g a) : ModifyM σ γ) (g a) fun _ => False :=
    pure start (g a) fun _ => id
  refine (hm.bind hpure fun _ _ _ hq => absurd hq id).congr fun p => ?_
  rw [or_false]

end Asks

/-! ## What a plan asks for -/

/-- Steps lead through the plan to an attribute that asks for replacement there, and sees a reason
for it. -/
inductive Asked (r : ModifyRequest) : Node (Behaviour σ) → Path → Value → Value → Value →
    List Step → Prop
  | here {a : Attribute (Behaviour σ)} {path : Path} {config state plan : Value} :
      .requiresReplace ∈ a.behaviour.planModifiers →
      (r.at path config state plan).replaces = true → Asked r (.attr a) path config state plan []
  | inside {n m : Node (Behaviour σ)} {path : Path} {config state plan x : Value} {s : Step}
      {steps : List Step} : n.Declares s m → plan.Holds s x →
      Asked r m (path.push s) (config.beside s) (state.beside s) x steps →
      Asked r n path config state plan (s :: steps)

/-- The path goes on from a node to where replacement is asked for. -/
def AskedAt (r : ModifyRequest) (n : Node (Behaviour σ)) (path : Path) (config state plan : Value)
    (p : Path) : Prop :=
  ∃ steps, p.steps = path.steps ++ steps ∧ Asked r n path config state plan steps

/-- The path goes on from one of the children `C` of a node. -/
def AskedIn (r : ModifyRequest) (path : Path) (config state : Value)
    (C : Step → Node (Behaviour σ) → Value → Prop) (p : Path) : Prop :=
  ∃ s m x, C s m x ∧ AskedAt r m (path.push s) (config.beside s) (state.beside s) x p

/-- What a node declares and the plan holds there. -/
def Node.Children (n : Node (Behaviour σ)) (plan : Value) (s : Step) (m : Node (Behaviour σ))
    (x : Value) : Prop := n.Declares s m ∧ plan.Holds s x

section

variable {r : ModifyRequest} {n m : Node (Behaviour σ)} {path p q : Path}
  {config state plan x : Value} {s t : Step} {C D : Step → Node (Behaviour σ) → Value → Prop}

theorem AskedAt.exists_steps
    (h : AskedAt r m (path.push s) (config.beside s) (state.beside s) x p) :
    ∃ steps, p.steps = path.steps ++ s :: steps := by
  obtain ⟨steps, hp, _⟩ := h
  rw [Path.push_steps, List.append_assoc] at hp
  exact ⟨steps, hp⟩

theorem AskedIn.mono (h : AskedIn r path config state C p)
    (hle : ∀ s m x, C s m x → D s m x) : AskedIn r path config state D p := by
  obtain ⟨s, m, x, hC, hp⟩ := h
  exact ⟨s, m, x, hle s m x hC, hp⟩

theorem AskedIn.congr (hiff : ∀ s m x, C s m x ↔ D s m x) :
    AskedIn r path config state C p ↔ AskedIn r path config state D p :=
  ⟨fun h => h.mono fun s m x => (hiff s m x).mp, fun h => h.mono fun s m x => (hiff s m x).mpr⟩

/-- What is asked for at a node is asked for by the attribute that it is, or at one of its
children. -/
theorem askedAt_iff :
    AskedAt r n path config state plan p ↔
      (∃ a, n = .attr a ∧ p = path ∧ .requiresReplace ∈ a.behaviour.planModifiers ∧
        (r.at path config state plan).replaces = true) ∨
      AskedIn r path config state (n.Children plan) p := by
  constructor
  · rintro ⟨steps, hp, h⟩
    cases h with
    | @here a _ _ _ _ hmodifier hreplaces =>
      rw [List.append_nil] at hp
      exact .inl ⟨a, rfl, congrArg Path.mk hp, hmodifier, hreplaces⟩
    | @inside _ m _ _ _ _ x s steps hm hx h =>
      refine .inr ⟨s, m, x, ⟨hm, hx⟩, steps, ?_, h⟩
      rw [Path.push_steps, List.append_assoc]
      exact hp
  · rintro (⟨a, rfl, rfl, hmodifier, hreplaces⟩ | ⟨s, m, x, ⟨hm, hx⟩, steps, hp, h⟩)
    · exact ⟨[], (List.append_nil _).symm, .here hmodifier hreplaces⟩
    · rw [Path.push_steps, List.append_assoc] at hp
      exact ⟨s :: steps, hp, .inside hm hx h⟩

theorem askedAt_iff_of_ne_attr (hn : ∀ a, n ≠ .attr a) :
    AskedAt r n path config state plan p ↔ AskedIn r path config state (n.Children plan) p := by
  rw [askedAt_iff]
  refine or_iff_right ?_
  rintro ⟨a, ha, _⟩
  exact hn a ha

end

/-! ## Collections -/

section

open Modify

variable {r : ModifyRequest} {n m : Node (Behaviour σ)} {visit : VisitObject σ} {path : Path}
  {config state plan : Value} {attributes : List (String × Attribute (Behaviour σ))}
  {blocks : List (String × NestedBlock (Behaviour σ))}

/-- Visiting a node gives the plan as it was, and asks for what is asked for at the node. -/
def AsksAt (r : ModifyRequest) (visit : VisitObject σ) (n : Node (Behaviour σ)) (path : Path)
    (config state plan : Value) : Prop :=
  Asks r.privateData (visit path config state plan) plan (AskedAt r n path config state plan)

/-- Visiting a node gives the plan as it was, and asks for what is asked for at its children. -/
def AsksBelow (r : ModifyRequest) (visit : VisitObject σ) (n : Node (Behaviour σ)) (path : Path)
    (config state plan : Value) : Prop :=
  Asks r.privateData (visit path config state plan) plan
    (AskedIn r path config state (n.Children plan))

theorem AsksBelow.asksAt (h : AsksBelow r visit n path config state plan)
    (hn : ∀ a, n ≠ .attr a) : AsksAt r visit n path config state plan :=
  h.congr fun _ => askedAt_iff_of_ne_attr hn

/-- One child after the other: what is asked for is asked for at one of them. -/
theorem Asks.cons {α γ : Type} {start : ProviderData} {work : ModifyM σ α} {f : α → ModifyM σ γ}
    {a : α} {b : γ} {s : Step} {x : Value} {C D : Step → Node (Behaviour σ) → Value → Prop}
    (h : Asks start work a (AskedAt r m (path.push s) (config.beside s) (state.beside s) x))
    (h' : Asks start (f a) b (AskedIn r path config state C))
    (hapart : ∀ t n y, C t n y → s.same t = false)
    (hD : ∀ t n y, D t n y ↔ (t = s ∧ n = m ∧ y = x) ∨ C t n y) :
    Asks start (work >>= f) b (AskedIn r path config state D) := by
  refine (h.bind h' fun p q hp hq => ?_).congr fun p => ?_
  · obtain ⟨t, n, y, hC, hq⟩ := hq
    obtain ⟨ss, hp⟩ := hp.exists_steps
    obtain ⟨ts, hq⟩ := hq.exists_steps
    exact Path.same_eq_false_of_part hp hq (hapart t n y hC)
  · constructor
    · rintro ⟨t, n, y, hDt, hp⟩
      rcases (hD t n y).mp hDt with ⟨rfl, rfl, rfl⟩ | hC
      · exact .inl hp
      · exact .inr ⟨t, n, y, hC, hp⟩
    · rintro (hp | hp)
      · exact ⟨s, m, x, (hD s m x).mpr (.inl ⟨rfl, rfl, rfl⟩), hp⟩
      · exact hp.mono fun t n y hC => (hD t n y).mpr (.inr hC)

theorem asks_visitItems {xs : List Value} {i : Nat}
    (h : ∀ (j : Nat) x, xs[j]? = some x →
      AsksAt r visit m (path.index (i + j)) (config.itemOrNull (i + j))
        (state.itemOrNull (i + j)) x) :
    Asks r.privateData (visitItems visit path config state i xs) xs
      (AskedIn r path config state fun t n y =>
        n = m ∧ ∃ j, xs[j]? = some y ∧ t = .index (i + j)) := by
  induction xs generalizing i with
  | nil =>
    refine Asks.pure _ _ fun p => ?_
    rintro ⟨_, _, _, ⟨_, _, hy, _⟩, _⟩
    cases hy
  | cons x xs ih =>
    have hrest := ih (i := i + 1) (fun j y hy => by
      have := h (j + 1) y hy
      rwa [Nat.add_comm j 1, ← Nat.add_assoc] at this)
    refine Asks.cons (h 0 x rfl) (hrest.map (x :: ·)) ?_ ?_
    · rintro t n y ⟨_, j, _, rfl⟩
      exact decide_eq_false (by omega)
    · intro t n y
      constructor
      · rintro ⟨rfl, j, hy, rfl⟩
        cases j with
        | zero =>
          cases hy
          exact .inl ⟨rfl, rfl, rfl⟩
        | succ j => exact .inr ⟨rfl, j, hy, by rw [Nat.add_comm j 1, Nat.add_assoc]⟩
      · rintro (⟨rfl, rfl, rfl⟩ | ⟨rfl, j, hy, rfl⟩)
        · exact ⟨rfl, 0, rfl, rfl⟩
        · exact ⟨rfl, j + 1, hy, by rw [Nat.add_comm j 1, Nat.add_assoc]⟩

theorem asks_visitEntries {es : List (String × Value)} (hes : Keyed.Ascending es)
    (h : ∀ e ∈ es,
      AsksAt r visit m (path.key e.1) (config.entryOrNull e.1) (state.entryOrNull e.1) e.2) :
    Asks r.privateData (visitEntries visit path config state es) es
      (AskedIn r path config state fun t n y => n = m ∧ ∃ k, (k, y) ∈ es ∧ t = .key k) := by
  induction es with
  | nil =>
    refine Asks.pure _ _ fun p => ?_
    rintro ⟨_, _, _, ⟨_, _, hy, _⟩, _⟩
    cases hy
  | cons e es ih =>
    obtain ⟨k, x⟩ := e
    obtain ⟨hlt, hes⟩ := List.pairwise_cons.mp hes
    have hrest := ih hes fun e he => h e (List.mem_cons_of_mem _ he)
    refine Asks.cons (h (k, x) List.mem_cons_self) (hrest.map ((k, x) :: ·)) ?_ ?_
    · rintro t n y ⟨_, l, hy, rfl⟩
      refine decide_eq_false fun heq => ?_
      have hkl := hlt _ hy
      rw [heq] at hkl
      exact String.lt_irrefl _ hkl
    · intro t n y
      constructor
      · rintro ⟨rfl, l, hy, rfl⟩
        rcases List.mem_cons.mp hy with hy | hy
        · cases hy
          exact .inl ⟨rfl, rfl, rfl⟩
        · exact .inr ⟨rfl, l, hy, rfl⟩
      · rintro (⟨rfl, rfl, rfl⟩ | ⟨rfl, l, hy, rfl⟩)
        · exact ⟨rfl, k, List.mem_cons_self, rfl⟩
        · exact ⟨rfl, l, List.mem_cons_of_mem _ hy, rfl⟩

/-- A collection asks for what its objects ask for. -/
theorem asks_visitCollection {mode : NestingMode}
    (hv : n.view = Node.collected mode attributes blocks m) (hsets : ∀ e, n.view ≠ .set e)
    (hplan : plan.Ordered)
    (hsingle : n.view = .object attributes blocks → AsksBelow r visit n path config state plan)
    (hbelow : ∀ s x, n.Declares s m → plan.Holds s x →
      AsksAt r visit m (path.push s) (config.beside s) (state.beside s) x) :
    AsksBelow r (visitCollection mode visit) n path config state plan := by
  cases mode with
  | single => exact hsingle hv
  | set => exact absurd hv (hsets m)
  | list =>
    cases plan
    case list xs =>
      have hitems := asks_visitItems (r := r) (i := 0) fun j x hx => by
        rw [Nat.zero_add]
        exact hbelow (.index j) x (.item j hv) (.index hx)
      refine (hitems.map Value.list).congr fun p => AskedIn.congr fun t k y => ?_
      constructor
      · rintro ⟨hk, hy⟩
        obtain ⟨i, rfl, rfl⟩ := hk.of_list hv
        cases hy with
        | index hy => exact ⟨rfl, i, hy, by rw [Nat.zero_add]⟩
      · rintro ⟨rfl, j, hy, rfl⟩
        rw [Nat.zero_add]
        exact ⟨.item j hv, .index hy⟩
    all_goals
      refine Asks.pure _ _ fun p => ?_
      rintro ⟨t, k, y, ⟨hk, hy⟩, _⟩
      obtain ⟨i, rfl, _⟩ := hk.of_list hv
      cases hy
  | map =>
    cases plan
    case map es =>
      have hes := hplan.ascending
      have hentries := asks_visitEntries (r := r) hes fun e he =>
        hbelow (.key e.1) e.2 (.entry e.1 hv) (.key (Keyed.get?_of_mem hes he))
      refine (hentries.map Value.map).congr fun p => AskedIn.congr fun t k y => ?_
      constructor
      · rintro ⟨hk, hy⟩
        obtain ⟨l, rfl, rfl⟩ := hk.of_map hv
        cases hy with
        | key hy => exact ⟨rfl, l, Keyed.mem_of_get? hy, rfl⟩
      · rintro ⟨rfl, l, hy, rfl⟩
        exact ⟨.entry l hv, .key (Keyed.get?_of_mem hes hy)⟩
    all_goals
      refine Asks.pure _ _ fun p => ?_
      rintro ⟨t, k, y, ⟨hk, hy⟩, _⟩
      obtain ⟨l, rfl, _⟩ := hk.of_map hv
      cases hy

/-! ## Objects -/

/-- Only an object asks for anything at the names of its attributes and blocks. -/
theorem asks_onObject {onEntries : Keyed Value → ModifyM σ (Keyed Value)}
    (hv : n.view = .object attributes blocks)
    (h : ∀ es, plan = .map es →
      Asks r.privateData (onEntries es) es
        (AskedIn r path config state (n.Children (.map es)))) :
    Asks r.privateData (onObject onEntries plan) plan
      (AskedIn r path config state (n.Children plan)) := by
  cases plan
  case map es => exact (h es rfl).map Value.map
  all_goals
    refine Asks.pure _ _ fun p => ?_
    rintro ⟨t, k, y, ⟨hk, hy⟩, _⟩
    rcases hk.of_object hv with ⟨_, _, rfl, _⟩ | ⟨_, _, rfl, _⟩ <;> cases hy

/-- Children of an object under declared names, with what the plan has there. -/
def Named {α : Type} (node : α → Node (Behaviour σ)) (declared : List (String × α))
    (es : Keyed Value) (s : Step) (m : Node (Behaviour σ)) (x : Value) : Prop :=
  ∃ e ∈ declared, s = .field e.1 ∧ m = node e.2 ∧ x = (Keyed.get? es e.1).getD .null

theorem named_cons_iff {α : Type} {node : α → Node (Behaviour σ)} {name : String} {a : α}
    {rest : List (String × α)} {es : Keyed Value} {s : Step} {x : Value} :
    Named node ((name, a) :: rest) es s m x ↔
      (s = .field name ∧ m = node a ∧ x = (Keyed.get? es name).getD .null) ∨
        Named node rest es s m x := by
  constructor
  · rintro ⟨e, he, hs, hm, hx⟩
    rcases List.mem_cons.mp he with rfl | he
    · exact .inl ⟨hs, hm, hx⟩
    · exact .inr ⟨e, he, hs, hm, hx⟩
  · rintro (⟨hs, hm, hx⟩ | ⟨e, he, hs, hm, hx⟩)
    · exact ⟨(name, a), List.mem_cons_self, hs, hm, hx⟩
    · exact ⟨e, List.mem_cons_of_mem _ he, hs, hm, hx⟩

/-- Other names than `name` are not the same step. -/
theorem Named.apart {α : Type} {node : α → Node (Behaviour σ)} {name : String}
    {declared : List (String × α)} {es : Keyed Value} {s : Step} {x : Value}
    (h : Named node declared es s m x) (hname : name ∉ Keyed.keys declared) :
    (Step.field name).same s = false := by
  obtain ⟨e, he, rfl, _⟩ := h
  refine decide_eq_false fun heq => hname ?_
  rw [heq]
  exact List.mem_map_of_mem he

theorem children_map_iff (hv : n.view = .object attributes blocks) {es : Keyed Value} {s : Step}
    {x : Value} : n.Children (.map es) s m x ↔
      Named .attr attributes es s m x ∨ Named .nestedBlock blocks es s m x := by
  constructor
  · rintro ⟨hm, hx⟩
    rcases hm.of_object hv with ⟨e, he, rfl, rfl⟩ | ⟨e, he, rfl, rfl⟩
    · cases hx
      exact .inl ⟨e, he, rfl, rfl, rfl⟩
    · cases hx
      exact .inr ⟨e, he, rfl, rfl, rfl⟩
  · rintro (⟨e, he, rfl, rfl, rfl⟩ | ⟨e, he, rfl, rfl, rfl⟩)
    · exact ⟨.attr hv he, .field es e.1⟩
    · exact ⟨.block hv he, .field es e.1⟩

theorem asks_visitAttributes {es : Keyed Value} (hes : Keyed.Ascending es)
    (hnames : (Keyed.keys attributes).Nodup)
    (h : ∀ e ∈ attributes, ∀ before, before = (Keyed.get? es e.1).getD .null →
      AsksAt r (visitAttribute r e.2) (.attr e.2) (path.field e.1) (config.entryOrNull e.1)
        (state.entryOrNull e.1) before) :
    Asks r.privateData (visitAttributes r attributes path config state es) es
      (AskedIn r path config state (Named .attr attributes es)) := by
  induction attributes with
  | nil =>
    rw [visitAttributes]
    refine Asks.pure _ _ fun p => ?_
    rintro ⟨_, _, _, ⟨_, he, _⟩, _⟩
    cases he
  | cons e rest ih =>
    obtain ⟨name, a⟩ := e
    obtain ⟨hname, hnames⟩ := List.nodup_cons.mp hnames
    have hfirst := h (name, a) List.mem_cons_self _ rfl
    rw [visitAttributes]
    refine Asks.cons (s := .field name) (C := Named .attr rest es) hfirst ?_
      (fun t n y hC => hC.apart hname) fun t n y => named_cons_iff
    rw [putBack_same hes]
    exact ih hnames fun e he => h e (List.mem_cons_of_mem _ he)

/-- A block that the plan does not have asks for nothing. -/
theorem not_askedAt_null {b : NestedBlock (Behaviour σ)} {p : Path} :
    ¬ AskedAt r (.nestedBlock b) path config state .null p := by
  rw [askedAt_iff_of_ne_attr (by rintro a ⟨⟩)]
  rintro ⟨s, m, x, ⟨_, hx⟩, _⟩
  cases hx

theorem asks_visitBlocks {es : Keyed Value} (hes : Keyed.Ascending es)
    (hnames : (Keyed.keys blocks).Nodup)
    (h : ∀ e ∈ blocks, ∀ before, Keyed.get? es e.1 = some before →
      AsksAt r (visitCollection e.2.mode (visitBlock r e.2.block)) (.nestedBlock e.2)
        (path.field e.1) (config.entryOrNull e.1) (state.entryOrNull e.1) before) :
    Asks r.privateData (visitBlocks r blocks path config state es) es
      (AskedIn r path config state (Named .nestedBlock blocks es)) := by
  induction blocks with
  | nil =>
    rw [visitBlocks]
    refine Asks.pure _ _ fun p => ?_
    rintro ⟨_, _, _, ⟨_, he, _⟩, _⟩
    cases he
  | cons e rest ih =>
    obtain ⟨name, ⟨b, mode, minItems, maxItems⟩⟩ := e
    obtain ⟨hname, hnames⟩ := List.nodup_cons.mp hnames
    have hrest := ih hnames fun e he => h e (List.mem_cons_of_mem _ he)
    rw [visitBlocks]
    cases hbefore : Keyed.get? es name with
    | none =>
      refine hrest.congr fun p => ?_
      constructor
      · rintro ⟨t, n, y, hC, hp⟩
        rcases named_cons_iff.mp hC with ⟨rfl, rfl, rfl⟩ | hC
        · rw [hbefore] at hp
          exact absurd hp not_askedAt_null
        · exact ⟨t, n, y, hC, hp⟩
      · exact fun hp => hp.mono fun t n y hC => named_cons_iff.mpr (.inr hC)
    | some before =>
      have hfirst := h (name, ⟨b, mode, minItems, maxItems⟩) List.mem_cons_self before hbefore
      refine Asks.cons (s := .field name) (x := before) (C := Named .nestedBlock rest es) hfirst ?_
        (fun t n y hC => hC.apart hname) fun t n y => ?_
      · rw [Keyed.insert_of_get? hes hbefore]
        exact hrest
      · rw [named_cons_iff, hbefore]
        rfl

end

/-! ## One attribute -/

/-- The modifiers are none, or the one that asks for replacement. -/
def PlanModifier.replacesAtMostOnce : List (PlanModifier σ) → Bool
  | [] => true
  | [.requiresReplace] => true
  | _ => false

section

open Modify

variable {r : ModifyRequest} {path : Path} {config state plan : Value}

theorem asks_runModifiers {ms : List (PlanModifier σ)}
    (hms : PlanModifier.replacesAtMostOnce ms = true) :
    Asks r.privateData (runModifiers r path config state ms plan) (plan, false) fun p =>
      p = path ∧ .requiresReplace ∈ ms ∧ (r.at path config state plan).replaces = true := by
  unfold PlanModifier.replacesAtMostOnce at hms
  split at hms
  · refine Asks.pure _ _ fun p => ?_
    rintro ⟨_, hmem, _⟩
    cases hmem
  · intro log world hlog
    let call : ModifierCall σ := ⟨.requiresReplace, r.at path config state plan,
      { (r.at path config state plan).unchanged with
        requiresReplace := (r.at path config state plan).replaces }⟩
    have hmodify : PlanModifier.modify .requiresReplace (r.at path config state plan) =
        (pure call.response : StateM σ ModifierResponse) := rfl
    have hreplaced : ModifierLog.requiresReplace [call] =
        if (r.at path config state plan).replaces then [path] else [] := by
      unfold ModifierLog.requiresReplace
      cases hreplaces : (r.at path config state plan).replaces <;>
        simp only [call, hreplaces, List.filterMap_cons, List.filterMap_nil] <;> rfl
    refine ⟨[call], runModifiers_of_pure [] world hlog hmodify rfl, ?_, rfl, ?_, fun p => ?_⟩
    · simp [ModifierLog.privateData, call, ModifierRequest.unchanged, ModifyRequest.at]
    · rw [hreplaced]
      split <;> simp
    · rw [hreplaced]
      split
      · next hreplaces => simp [hreplaces]
      · next hreplaces => simp [hreplaces]
  · cases hms

end

/-! ## Schemas that ask for replacement only -/

/-- An attribute has no plan modifier but one that asks for replacement, at most. -/
def Schema.replacesAtMostOnce (s : ActiveSchema σ) : Bool :=
  s.every (Node.ifAttribute fun a => PlanModifier.replacesAtMostOnce a.behaviour.planModifiers)

/-- Below a node there are no sets, names are distinct, and attributes ask for replacement only. -/
structure Node.AsksOnly (n : Node (Behaviour σ)) : Prop where
  sets : ∀ steps m e, n.Reaches steps m → m.view ≠ .set e
  distinct : n.hasDistinctNames = true
  replaces : n.every (Node.ifAttribute fun a =>
    PlanModifier.replacesAtMostOnce a.behaviour.planModifiers) = true

section

open Modify

variable {r : ModifyRequest} {n m : Node (Behaviour σ)} {path : Path} {config state plan : Value}
  {attributes : List (String × Attribute (Behaviour σ))}
  {blocks : List (String × NestedBlock (Behaviour σ))}

theorem Node.AsksOnly.below (hn : n.AsksOnly) {s : Step} (hm : n.Declares s m) : m.AsksOnly where
  sets steps k e hk := hn.sets (s :: steps) k e ⟨m, hm.leads hn.distinct, hk⟩
  distinct := hm.every hn.distinct
  replaces := hm.every hn.replaces

theorem Node.AsksOnly.view_ne_set (hn : n.AsksOnly) (e : Node (Behaviour σ)) : n.view ≠ .set e :=
  hn.sets [] n e rfl

theorem Node.AsksOnly.names (hn : n.AsksOnly) (hv : n.view = .object attributes blocks) :
    (Keyed.keys attributes ++ Keyed.keys blocks).Nodup := by
  have hnames : n.view.names.Nodup := of_decide_eq_true (Node.self_of_every hn.distinct)
  rwa [hv] at hnames

/-- The attributes of an object, each with what the plan has under its name. -/
theorem Node.AsksOnly.visitAttributes (hn : n.AsksOnly) (hv : n.view = .object attributes blocks)
    {es : Keyed Value} (hes : (Value.map es).Ordered)
    (ih : ∀ e ∈ attributes, ∀ {path config state plan}, (Node.attr e.2).AsksOnly → plan.Ordered →
      AsksAt r (visitAttribute r e.2) (.attr e.2) path config state plan) :
    Asks r.privateData (visitAttributes r attributes path config state es) es
      (AskedIn r path config state (Named .attr attributes es)) := by
  refine asks_visitAttributes hes.ascending (List.nodup_append.mp (hn.names hv)).1 ?_
  rintro e he before rfl
  exact ih e he (hn.below (.attr hv he)) ((Value.Holds.field es e.1).ordered hes)

/-- An object without blocks. -/
theorem Node.AsksOnly.visitObject (hn : n.AsksOnly) (hv : n.view = .object attributes [])
    (hplan : plan.Ordered)
    (ih : ∀ e ∈ attributes, ∀ {path config state plan}, (Node.attr e.2).AsksOnly → plan.Ordered →
      AsksAt r (visitAttribute r e.2) (.attr e.2) path config state plan) :
    AsksBelow r (fun path config state plan =>
      onObject (Modify.visitAttributes r attributes path config state) plan) n path config state
        plan := by
  refine asks_onObject hv fun es hes => ?_
  subst hes
  refine (hn.visitAttributes hv hplan ih).congr fun p => AskedIn.congr fun s m x => ?_
  rw [children_map_iff hv]
  refine or_iff_left ?_
  rintro ⟨e, he, _⟩
  cases he

theorem asks_visitAttribute (a : Attribute (Behaviour σ)) (ha : (Node.attr a).AsksOnly)
    (hplan : plan.Ordered) : AsksAt r (visitAttribute r a) (.attr a) path config state plan := by
  induction a using Attribute.nestedInduction generalizing path config state plan with
  | step a ih =>
    have hown : Asks r.privateData
        (runModifiers r path config state a.behaviour.planModifiers plan) (plan, false) _ :=
      asks_runModifiers (Node.self_of_every ha.replaces)
    rw [AsksAt, visitAttribute_eq]
    refine (hown.bind (R := AskedIn r path config state ((Node.attr a).Children plan)) ?_ ?_).congr
      fun p => ?_
    · simp only [Bool.false_eq_true, if_false]
      cases hnested : a.nested with
      | none =>
        refine Asks.pure _ _ fun p => ?_
        rintro ⟨s, m, x, ⟨hm, _⟩, _⟩
        exact hm.view_ne_atomic a.type (by rw [Node.view, hnested])
      | some nested =>
        obtain ⟨mode, attributes⟩ := nested
        have hview : (Node.attr a).view =
            Node.collected mode attributes [] (.nestedObject attributes) := by
          rw [Node.view, hnested]
        refine asks_visitCollection hview ha.view_ne_set hplan
          (fun hv => ha.visitObject hv hplan (ih _ hnested)) fun s x hs hx => ?_
        exact ((ha.below hs).visitObject rfl (hx.ordered hplan) (ih _ hnested)).asksAt
          (by rintro a ⟨⟩)
    · rintro p q ⟨rfl, _⟩ ⟨s, m, x, _, hq⟩
      obtain ⟨steps, hq⟩ := hq.exists_steps
      exact Path.same_eq_false_of_below rfl hq
    · rw [askedAt_iff]
      refine or_congr_left ?_
      constructor
      · rintro ⟨b, hb, hp⟩
        cases hb
        exact hp
      · exact fun hp => ⟨a, rfl, hp⟩

/-- The nested blocks of an object that the plan has. -/
theorem Node.AsksOnly.visitBlocks (hn : n.AsksOnly) (hv : n.view = .object attributes blocks)
    {es : Keyed Value} (hes : (Value.map es).Ordered)
    (ih : ∀ e ∈ blocks, ∀ {n path config state plan},
      n.view = .object e.2.block.attributes e.2.block.blocks → n.AsksOnly → plan.Ordered →
      AsksBelow r (visitBlock r e.2.block) n path config state plan) :
    Asks r.privateData (visitBlocks r blocks path config state es) es
      (AskedIn r path config state (Named .nestedBlock blocks es)) := by
  refine asks_visitBlocks hes.ascending (List.nodup_append.mp (hn.names hv)).2.1 ?_
  intro e he before hbefore
  have hfield : (Value.map es).Holds (.field e.1) before := by
    have := Value.Holds.field es e.1
    rwa [hbefore] at this
  have hblock := hn.below (.block hv he)
  have hordered := hfield.ordered hes
  refine AsksBelow.asksAt ?_ (by rintro a ⟨⟩)
  refine asks_visitCollection (m := .block e.2.block) rfl hblock.view_ne_set hordered
    (fun hv => ih e he hv hblock hordered) fun s x hs hx => ?_
  exact (ih e he rfl (hblock.below hs) (hx.ordered hordered)).asksAt (by rintro a ⟨⟩)

theorem asks_visitBlock (b : Block (Behaviour σ)) (hv : n.view = .object b.attributes b.blocks)
    (hn : n.AsksOnly) (hplan : plan.Ordered) :
    AsksBelow r (visitBlock r b) n path config state plan := by
  induction b using Block.nestedInduction generalizing n path config state plan with
  | step b ih =>
    rw [AsksBelow, visitBlock_eq]
    refine asks_onObject hv fun es hes => ?_
    subst hes
    have hnames := List.nodup_append.mp (hn.names hv)
    have hattributes : Asks r.privateData (visitAttributes r b.attributes path config state es) es
        (AskedIn r path config state (Named .attr b.attributes es)) :=
      hn.visitAttributes hv hplan fun e _ {_ _ _ _} => asks_visitAttribute e.2
    refine (hattributes.bind (hn.visitBlocks hv hplan ih) ?_).congr fun p => ?_
    · rintro p q ⟨_, m, x, ⟨e, he, rfl, _⟩, hp⟩ ⟨t, k, y, hC, hq⟩
      obtain ⟨ss, hp⟩ := hp.exists_steps
      obtain ⟨ts, hq⟩ := hq.exists_steps
      refine Path.same_eq_false_of_part hp hq (hC.apart fun hmem => ?_)
      exact hnames.2.2 _ (List.mem_map_of_mem he) _ hmem rfl
    · constructor
      · rintro ⟨s, m, x, hC, hp⟩
        rcases (children_map_iff hv).mp hC with hC | hC
        · exact .inl ⟨s, m, x, hC, hp⟩
        · exact .inr ⟨s, m, x, hC, hp⟩
      · rintro (hp | hp)
        · exact hp.mono fun s m x hC => (children_map_iff hv).mpr (.inl hC)
        · exact hp.mono fun s m x hC => (children_map_iff hv).mpr (.inr hC)

end

end ProviderKit
