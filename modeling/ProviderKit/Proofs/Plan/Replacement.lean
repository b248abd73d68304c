import ProviderKit.Proofs.Plan.Marks
import ProviderKit.Proofs.Plan.Unchanged

-- What keeps its value asks for a replacement only for what the provider decides inside it. The
-- modifier compares the plan in which that has become unknown with the prior state, and so sees
-- a change in every collection above it, and in every set element that it changed.

namespace ProviderKit

variable {σ δ β : Type}

/-! ## Beside the stage of unknowns -/

theorem Value.beside_eq (v : Value) (s : Step) : v.beside s = (v.step? s).getD .null := by
  cases s <;> cases v <;> rfl

def Attribute.plain (a : Attribute β) : Attribute Unit := a.mapBehaviour fun _ => ()

def Node.plain (n : Node β) : Node Unit := n.mapBehaviour fun _ => ()

/-- At a node of the schema: what is configured and proposed there, and what the stage of unknowns
has made of the proposed value. -/
structure Marked (s : Schema β) (config proposed : Value) (n : Node β) (path : Path)
    (configured before after : Value) : Prop where
  node : s.plain.nodeAt path = .ok n.plain
  distinct : n.hasDistinctNames = true
  configured : configured = (config.reach? path.steps).getD .null
  holds : proposed.HoldsAt path.steps before
  ordered : before.Ordered
  rebuilds : Rebuilds (unknownAt config) path (.described n.plain) before after

/-- Both paths go through an element of one set, each through its own. -/
def Path.ThroughSet (p q : Path) : Prop :=
  ∃ above e below e' below', p.steps = above ++ .element e :: below ∧
    q.steps = above ++ .element e' :: below'

theorem Path.ThroughSet.push {p q : Path} (h : p.ThroughSet q) (s : Step) :
    p.ThroughSet (q.push s) := by
  obtain ⟨above, e, below, e', below', hp, hq⟩ := h
  refine ⟨above, e, below, e', below' ++ [s], hp, ?_⟩
  rw [Path.push_steps, hq, List.append_assoc]
  rfl

section

variable {s : Schema β} {config proposed : Value} {n m : Node β} {path : Path}
  {configured before after x : Value} {step : Step}

theorem Marked.marks (h : Marked s config proposed n path configured before after)
    (hbelow : (Position.described n.plain).MarksBelow config path before) :
    ∃ below a, n.plain.Reaches below (.attr a) ∧ a.isLeftToProvider = true ∧
      s.plain.Marks config proposed ⟨path.steps ++ below⟩ := by
  obtain ⟨_, below, a, x, hn, hreaches, ha, hconfig, hx, hne⟩ := hbelow
  cases hn
  refine ⟨below, a, hreaches, ha, a, x, ?_, ha, hconfig, ?_, hne⟩
  · exact attributeAt_eq_ok_iff.mpr
      (Node.reaches_append.mpr ⟨_, nodeAt_eq_ok_iff.mp h.node, hreaches⟩)
  · exact Value.holdsAt_append.mpr ⟨before, h.holds, hx⟩

/-- What the stage of unknowns makes of a value that holds others was made of one that holds
others. -/
theorem eq_of_holds {u : Value} {position : Position Unit} {path : Path} {y : Value}
    (hu : unknownAt config path (position.node path) before = .ok u)
    (h : RebuildsBelow (unknownAt config) path position u after) (hy : after.Holds step y) :
    u = before := by
  have heq := eq_of_unknownAt hu
  split at heq
  · rw [heq] at h
    rw [← ((rebuildsBelow_of_atom_iff rfl).mp h).1] at hy
    cases hy
  · exact heq

theorem Marked.onward {y : Value} (h : Marked s config proposed n path configured before after)
    (hleads : n.plain.Leads step m.plain) (hdistinct : m.hasDistinctNames = true)
    (hy : before.Holds step y)
    (hr : Rebuilds (unknownAt config) (path.push step) (.described m.plain) y x) :
    Marked s config proposed m (path.push step) (configured.beside step) y x := by
  refine ⟨nodeAt_push h.node hleads, hdistinct, ?_, ?_, hy.ordered h.ordered, hr⟩
  · rw [Value.beside_eq, h.configured, Value.reach?_push]
    cases config.reach? path.steps <;> rfl
  · rw [Path.push_steps]
    exact Value.holdsAt_append.mpr ⟨before, h.holds, y, hy, rfl⟩

/-- Below, the plan holds what was proposed, or what the stage made of it. In a set, the walk that
follows looks for the element that the stage has made. -/
theorem Marked.below (h : Marked s config proposed n path configured before after)
    (hm : n.Declares step m) (hx : after.Holds step x) :
    (∃ y, before.Holds step y ∧
      (x = y ∨ Marked s config proposed m (path.push step) (configured.beside step) y x)) ∨
    ∃ p, s.plain.Marks config proposed p ∧ p.ThroughSet (path.push step) := by
  have hdistinct : m.hasDistinctNames = true := hm.every h.distinct
  have hleads : n.plain.Leads step m.plain := (hm.leads h.distinct).mapBehaviour _
  obtain ⟨u, hu, hbelow⟩ := h.rebuilds
  rw [eq_of_holds hu hbelow hx] at hbelow
  obtain ⟨s', y, hs, hy, hxy, hstep⟩ := hbelow.exists_of_holds hleads hx
  by_cases heq : x = y
  · subst heq
    rcases hstep with rfl | ⟨rfl, rfl⟩
    · exact .inl ⟨x, hy, .inl rfl⟩
    · exact .inl ⟨x, hy, .inl rfl⟩
  · have hmarked := h.onward hs hdistinct hy (hxy.resolve_left heq)
    rcases hstep with rfl | ⟨rfl, rfl⟩
    · exact .inl ⟨y, hy, .inr hmarked⟩
    · obtain ⟨below, _, _, _, hmarks⟩ :=
        hmarked.marks (marksBelow_of_ne hmarked.rebuilds hmarked.ordered heq)
      refine .inr ⟨_, hmarks, path.steps, y, below, x, [], ?_, rfl⟩
      rw [Path.push_steps, List.append_assoc]
      rfl

end

/-! ## Reasons to replace -/

def PlanModifier.isRequiresReplace : PlanModifier σ → Bool
  | .requiresReplace => true
  | _ => false

/-- Every plan modifier asks for a replacement when its attribute changes. -/
def Schema.onlyReplaces (s : ActiveSchema σ) : Bool :=
  s.every (Node.ifAttribute fun a => a.behaviour.planModifiers.all PlanModifier.isRequiresReplace)

/-- Something was made unknown below the path, or in the element of a set that it goes through. -/
def Schema.Disturbs (s : Schema β) (config proposed : Value) (path : Path) : Prop :=
  ∃ p, s.Marks config proposed p ∧
    ((∃ step below, p.steps = path.steps ++ step :: below) ∨ p.ThroughSet path)

/-- A modifier at the path replaces the resource for a reason: it does not start at the name, or
the plan has another value there than the prior state, because something was made unknown. -/
def ModifierCall.IsReasoned (s : Schema β) (config proposed drafted prior : Value) (name : String)
    (call : ModifierCall σ) : Prop :=
  call.response.requiresReplace = true → call.request.path.steps.head? = some (.field name) →
    (drafted.entryOrNull name).same (prior.entryOrNull name) = false ∧
      s.plain.Disturbs config proposed call.request.path

/-- How a node is accounted for, when the proposal has the prior value under a name. -/
inductive Accounted (s : Schema β) (config proposed drafted prior : Value) (name : String) :
    Node β → Path → Value → Value → Value → Prop
  | root {n configured before} :
      Marked s config proposed n .root configured before drafted →
      (before.entryOrNull name).same (prior.entryOrNull name) = true →
      Accounted s config proposed drafted prior name n .root configured prior drafted
  | elsewhere {n path configured state plan step} : path.steps.head? = some step →
      step ≠ .field name →
      Accounted s config proposed drafted prior name n path configured state plan
  | unmoved {n path configured state plan} : plan.same state = true →
      Accounted s config proposed drafted prior name n path configured state plan
  | throughSet {n path configured state plan p} :
      (drafted.entryOrNull name).same (prior.entryOrNull name) = false →
      s.plain.Marks config proposed p → p.ThroughSet path →
      Accounted s config proposed drafted prior name n path configured state plan
  | marked {n path configured before state plan} :
      (drafted.entryOrNull name).same (prior.entryOrNull name) = false →
      Marked s config proposed n path configured before plan → before.same state = true →
      Accounted s config proposed drafted prior name n path configured state plan

section

variable {s : Schema β} {config proposed drafted prior : Value} {name : String} {n m : Node β}
  {path : Path} {configured before state plan x : Value} {step : Step}

theorem head?_push {p : Path} {t : Step} (h : p.steps.head? = some t) (step : Step) :
    (p.push step).steps.head? = some t := by
  rw [Path.push_steps, List.head?_append, h]
  rfl

/-- What the stage of unknowns made of something that has its prior value is accounted for. -/
theorem Marked.accounted
    (hmoved : (drafted.entryOrNull name).same (prior.entryOrNull name) = false)
    (h : Marked s config proposed n path configured before plan) (hm : n.Declares step m)
    (hx : plan.Holds step x)
    (hsame : ∀ y, before.Holds step y → y.same (state.beside step) = true) :
    Accounted s config proposed drafted prior name m (path.push step) (configured.beside step)
      (state.beside step) x := by
  rcases h.below hm hx with ⟨y, hy, rfl | hmarked⟩ | ⟨p, hp, hthrough⟩
  · exact .unmoved (hsame _ hy)
  · exact .marked hmoved hmarked (hsame _ hy)
  · exact .throughSet hmoved hp hthrough

theorem Accounted.below
    (h : Accounted s config proposed drafted prior name n path configured state plan)
    (hm : n.Declares step m) (hx : plan.Holds step x) :
    Accounted s config proposed drafted prior name m (path.push step) (configured.beside step)
      (state.beside step) x := by
  cases h with
  | @root _ before hmarked hsame =>
    by_cases hs : step = .field name
    · subst hs
      have hentry : ∀ {v y : Value}, v.Holds (.field name) y → y = v.entryOrNull name := by
        intro v y hy
        cases hy
        rfl
      by_cases hmoved : (drafted.entryOrNull name).same (prior.entryOrNull name) = true
      · refine .unmoved ?_
        rw [hentry hx]
        exact hmoved
      · rw [Bool.not_eq_true] at hmoved
        refine hmarked.accounted hmoved hm hx (fun y hy => ?_)
        rw [hentry hy]
        exact hsame
    · exact .elsewhere rfl hs
  | elsewhere ht hne => exact .elsewhere (head?_push ht step) hne
  | unmoved hsame => exact .unmoved (hx.same_beside hsame)
  | throughSet hmoved hp hthrough => exact .throughSet hmoved hp (hthrough.push step)
  | marked hmoved hmarked hsame =>
    exact hmarked.accounted hmoved hm hx (fun y hy => hy.same_beside hsame)

end

/-- A modifier that replaces sees a change of an attribute that is configured, or that the provider
does not decide. -/
theorem moved_of_replaces {r : ModifierRequest} (h : r.replaces = true) :
    r.planValue.same r.stateValue = false ∧
      ∀ a, r.config.schema.attributeAt r.path = .ok a → a.flags.computed = true →
        r.configValue.isNull = false := by
  unfold ModifierRequest.replaces at h
  split at h
  · cases h
  · cases ha : r.config.schema.attributeAt r.path with
    | error fault =>
      rw [ha] at h
      exact ⟨by simpa using h, fun _ hb => by cases hb⟩
    | ok a =>
      rw [ha] at h
      dsimp only at h
      split at h
      · cases h
      · next hleft =>
        refine ⟨by simpa using h, fun b hb hcomputed => ?_⟩
        cases hb
        simpa [hcomputed] using hleft

/-- Where a modifier sees a change in what was made of the prior value, something was made unknown
below. -/
theorem Marked.exists_below {s : Schema β} {config proposed configured before plan state : Value}
    {a : Attribute β} {path : Path}
    (h : Marked s config proposed (.attr a) path configured before plan)
    (hsame : before.same state = true) (hmoved : plan.same state = false)
    (hconfigured : a.plain.flags.computed = true → configured.isNull = false) :
    ∃ step below, s.plain.Marks config proposed ⟨path.steps ++ step :: below⟩ := by
  have hne : plan ≠ before := by
    rintro rfl
    rw [hsame] at hmoved
    cases hmoved
  obtain ⟨below, b, hreaches, hb, hmarks⟩ := h.marks (marksBelow_of_ne h.rebuilds h.ordered hne)
  cases below with
  | cons step below => exact ⟨step, below, hmarks⟩
  | nil =>
    -- The attribute itself was made unknown, and modifiers let that pass.
    cases hreaches
    obtain ⟨_, _, _, _, hconfig, _⟩ := hmarks
    rw [List.append_nil] at hconfig
    have hnull := Value.configures_eq_false_iff.mp hconfig
    rw [Value.atPathOrNull_eq, ← h.configured] at hnull
    have hset := hconfigured (Bool.and_eq_true_iff.mp hb).1
    rw [hnull] at hset
    cases hset

section

variable {s : ActiveSchema σ} {r : ModifyRequest} {config proposed drafted prior : Value}
  {name : String}

theorem passes_accounted (hschema : r.config.schema = s.plain) :
    Passes r (ModifierCall.IsReasoned s config proposed drafted prior name)
      fun n path configured state plan =>
        n.every (Node.ifAttribute fun a =>
          a.behaviour.planModifiers.all PlanModifier.isRequiresReplace) = true ∧
        Accounted s config proposed drafted prior name n path configured state plan := by
  refine ⟨?_, ?_⟩
  · rintro a path configured state plan ⟨honly, haccounted⟩ m hm
    have hm : m.isRequiresReplace = true := List.all_eq_true.mp (Node.self_of_every honly) m hm
    cases m with
    | requiresReplace =>
      refine ⟨_, rfl, rfl, rfl, rfl, fun hreplaces hstart => ?_⟩
      obtain ⟨hmoved, hconfigured⟩ := moved_of_replaces hreplaces
      cases haccounted with
      | root hmarked _ => cases hstart
      | elsewhere ht hne => exact absurd (Option.some.inj (ht.symm.trans hstart)) hne
      | unmoved hsame => rw [ModifyRequest.at, hsame] at hmoved; cases hmoved
      | throughSet hdrafted hp hthrough => exact ⟨hdrafted, _, hp, .inr hthrough⟩
      | marked hdrafted hmarked hsame =>
        have hattribute : r.config.schema.attributeAt path = .ok a.plain := by
          rw [hschema, attributeAt_eq_ok_iff]
          exact nodeAt_eq_ok_iff.mp hmarked.node
        obtain ⟨step, below, hmarks⟩ :=
          hmarked.exists_below hsame hmoved (hconfigured _ hattribute)
        exact ⟨hdrafted, _, hmarks, .inl ⟨step, below, rfl⟩⟩
    | _ => cases hm
  · rintro n m path configured state plan step x ⟨honly, haccounted⟩ hm hx
    exact ⟨hm.every honly, haccounted.below hm hx⟩

end

/-- What the modifiers ask to replace, they have a reason for. -/
theorem replaced_of_accounted {s : ActiveSchema σ} {r : ModifyRequest}
    {config proposed : Value} {name : String} (hschema : r.config.schema = s.plain)
    (honly : s.onlyReplaces = true) (hplan : r.plan.raw.Ordered)
    (hroot : Accounted s config proposed r.plan.raw r.state.raw name (.block s.root) .root
      r.config.raw r.state.raw r.plan.raw) {world : σ} {path : Path}
    (hpath : path ∈ (s.modifyPlan r world).1.requiresReplace)
    (hstart : path.steps.head? = some (.field name)) :
    (r.plan.raw.entryOrNull name).same (r.state.raw.entryOrNull name) = false ∧
      s.plain.Disturbs config proposed path := by
  obtain ⟨calls, hrun, hcalls⟩ :=
    (passes_accounted hschema).modifyPlan (s := s) ⟨honly, hroot⟩ hplan world
  rw [hrun] at hpath
  obtain ⟨call, hcall, hasked⟩ := List.mem_filterMap.mp hpath
  split at hasked
  · next hreplaces =>
    cases hasked
    exact hcalls call hcall hreplaces hstart
  · cases hasked

namespace Path

theorem mem_of_mem_dropRepeated {text : String} {kept : List Path} {ps : List (String × Path)}
    {p : Path} (h : p ∈ dropRepeated text kept ps) : ∃ e ∈ ps, e.2 = p := by
  induction ps generalizing text kept with
  | nil => simp [dropRepeated] at h
  | cons e rest ih =>
    obtain ⟨t, q⟩ := e
    have hrest : ∀ {text kept}, p ∈ dropRepeated text kept rest →
        ∃ e ∈ (t, q) :: rest, e.2 = p := by
      intro text kept h
      obtain ⟨e, he, hp⟩ := ih h
      exact ⟨e, List.mem_cons_of_mem _ he, hp⟩
    unfold dropRepeated at h
    dsimp only at h
    generalize (if t = text then kept else []) = kept at h
    split at h
    · exact hrest h
    · rcases List.mem_cons.mp h with h | h
      · exact ⟨(t, q), List.mem_cons_self, h.symm⟩
      · exact hrest h

/-- Sorting and dropping adds no path. -/
theorem mem_of_mem_normalize {ps : List Path} {p : Path} (h : p ∈ normalize ps) : p ∈ ps := by
  obtain ⟨e, he, rfl⟩ := mem_of_mem_dropRepeated h
  rw [List.mem_mergeSort] at he
  obtain ⟨p, hp, rfl⟩ := List.mem_map.mp he
  exact hp

end Path

/-! ## Changes -/

namespace Server

/-- What the modifiers of the attributes make of a plan, in some world. -/
def modified (schema : ActiveSchema σ) (c : Change) (plan : Described) (privateData : ProviderData)
    (world : σ) : Modified σ :=
  (schema.modifyPlan ⟨c.config, plan, c.prior, c.providerMeta, privateData⟩ world).1

/-- The plan is the draft, and replaces nothing, or it is what the modifiers of the attributes make
of the draft, and replaces only what they ask to. -/
inductive Planned.ComesFrom (p : Planned) (schema : ActiveSchema σ) (c : Change)
    (privateData : ProviderData) (drafted : Value × Option Diagnostic) : Prop
  | drafted : p.plan.raw = drafted.1 → p.requiresReplace = [] →
      ComesFrom p schema c privateData drafted
  | modified (world : σ) : drafted.2 = none → drafted.1.isNull = false →
      p.plan = (modified schema c ⟨drafted.1, c.proposed.schema⟩ privateData world).plan →
      (∀ path ∈ p.requiresReplace,
        path ∈ (modified schema c ⟨drafted.1, c.proposed.schema⟩ privateData
          world).requiresReplace) →
      ComesFrom p schema c privateData drafted

theorem Planned.ComesFrom.of_plan_eq {schema : ActiveSchema σ} {c : Change}
    {privateData : ProviderData} {d : Value × Option Diagnostic} {p q : Planned}
    (h : p.ComesFrom schema c privateData d) (hplan : q.plan = p.plan)
    (hpaths : ∀ path ∈ q.requiresReplace, path ∈ p.requiresReplace) :
    q.ComesFrom schema c privateData d := by
  cases h with
  | drafted hdraft hnone =>
    refine .drafted (hplan ▸ hdraft) (List.eq_nil_iff_forall_not_mem.mpr fun path hpath => ?_)
    have hasked := hpaths path hpath
    rw [hnone] at hasked
    cases hasked
  | modified world hproblem hnull hmodified hasked =>
    exact .modified world hproblem hnull (hplan.trans hmodified) fun path hpath =>
      hasked path (hpaths path hpath)

theorem comesFrom_modifyAttributes (schema : ActiveSchema σ) (c : Change) (drafted : Value)
    (prior : PrivateState) (f : Frame σ δ) :
    (modifyAttributes schema c ⟨⟨drafted, c.proposed.schema⟩, [], prior, none⟩ f).1.ComesFrom
      schema c prior.provider (drafted, none) := by
  unfold modifyAttributes
  cases hnull : drafted.isNull with
  | true =>
    rw [Described.isNull, hnull, if_pos rfl]
    exact .drafted rfl rfl
  | false =>
    rw [Described.isNull, hnull, if_neg Bool.false_ne_true, rpc_bind, Rpc.act_eq]
    exact .modified f.world rfl hnull rfl fun _ hpath => hpath

/-- Without a say of the resource as a whole, only the modifiers of the attributes change the
draft. -/
theorem comesFrom_planStages {actions : Resource.Actions σ} (schema : ActiveSchema σ)
    (hwhole : actions.modifyPlan = none) (c : Change) (prior : PrivateState) (f : Frame σ δ) :
    (planStages actions schema c prior f).1.ComesFrom schema c prior.provider (draft c) := by
  unfold planStages
  generalize draft c = d
  obtain ⟨drafted, problem⟩ := d
  dsimp only
  rw [rpc_bind, Rpc.report_eq]
  cases problem with
  | some problem => exact .drafted rfl rfl
  | none =>
    simp only [Option.isSome_none, Bool.false_eq_true, if_false]
    rw [rpc_bind]
    generalize providerDeferral c.client _ = d
    obtain ⟨deferred, g⟩ := d
    cases deferred with
    | some deferred => exact .drafted rfl rfl
    | none =>
      have hmodified := comesFrom_modifyAttributes schema c drafted prior g
      dsimp only
      rw [rpc_bind]
      generalize modifyAttributes schema c _ g = m at hmodified ⊢
      obtain ⟨p, g⟩ := m
      rw [rpc_bind, Rpc.failed_eq, modifyWhole, hwhole]
      dsimp only at hmodified ⊢
      split
      · exact hmodified
      · rw [rpc_bind, rpc_pure, rpc_bind, Rpc.failed_eq]
        dsimp only
        split
        · exact hmodified
        · split
          · exact hmodified
          · exact hmodified.of_plan_eq rfl fun _ => Path.mem_of_mem_normalize

/-- Without a say of the resource as a whole, only the modifiers of attributes replace. -/
theorem planStages_requiresReplace {actions : Resource.Actions σ} {schema : ActiveSchema σ}
    (hwhole : actions.modifyPlan = none) {c : Change} {prior : PrivateState} {f : Frame σ δ}
    {path : Path} (h : path ∈ (planStages actions schema c prior f).1.requiresReplace) :
    (draft c).2 = none ∧ (draft c).1.isNull = false ∧ ∃ world,
      path ∈ (modified schema c ⟨(draft c).1, c.proposed.schema⟩ prior.provider
        world).requiresReplace := by
  cases comesFrom_planStages schema hwhole c prior f with
  | drafted _ hnone =>
    rw [hnone] at h
    cases h
  | modified world hdraft hnull _ hasked => exact ⟨hdraft, hnull, world, hasked path h⟩

/-- Where nothing has a default, the draft is the proposal, or what the stage of unknowns makes of
it. What is there and equals the prior state does not get to that stage. -/
theorem draft_cases {c : Change} (hs : c.proposed.schema.hasNoDefaults = true)
    (hfilled : c.proposed.schema.fillAbsent c.proposed.raw = .ok c.proposed.raw) :
    (draft c).1 = c.proposed.raw ∧ ((draft c).2 = none → (draft c).1.isNull = false →
        c.proposed.raw.same c.prior.raw = true) ∨
      Rebuilds (unknownAt c.config.raw) .root (.described (.block c.proposed.schema.root))
        c.proposed.raw (draft c).1 := by
  unfold draft
  simp only [applyDefaults_of_hasNoDefaults hs hfilled, Described.isNull]
  cases hproposed : c.proposed.raw.isNull with
  | true =>
    rw [if_pos rfl]
    exact .inl ⟨rfl, fun _ hnull => Bool.noConfusion (hproposed.symm.trans hnull)⟩
  | false =>
    simp only [Bool.false_eq_true, if_false, Bool.false_or]
    cases hsame : c.proposed.raw.same c.prior.raw with
    | true => exact .inl ⟨rfl, fun _ _ => rfl⟩
    | false =>
      simp only [Bool.false_eq_true, if_false]
      cases hmarked : c.proposed.schema.markUnknowns c.config.raw c.proposed.raw with
      | error fault => exact .inl ⟨rfl, fun hdraft => by cases hdraft⟩
      | ok marked =>
        obtain ⟨filled, hf, hwalk⟩ := markUnknowns_eq_ok_iff.mp hmarked
        rw [hfilled] at hf
        cases hf
        exact .inr hwalk

/-- Where nothing has a default, the draft is the proposal, which equals the prior state, or what
the stage of unknowns makes of it. -/
theorem draft_of_hasNoDefaults {c : Change} (hs : c.proposed.schema.hasNoDefaults = true)
    (hfilled : c.proposed.schema.fillAbsent c.proposed.raw = .ok c.proposed.raw)
    (hdraft : (draft c).2 = none) (hnull : (draft c).1.isNull = false) :
    (draft c).1 = c.proposed.raw ∧ c.proposed.raw.same c.prior.raw = true ∨
      Rebuilds (unknownAt c.config.raw) .root (.described (.block c.proposed.schema.root))
        c.proposed.raw (draft c).1 :=
  (draft_cases hs hfilled).imp_left fun h => ⟨h.1, h.2 hdraft hnull⟩

/-- Where only changes of attributes replace a resource and nothing has a default, a name under
which the proposal has the prior value replaces it only because of the provider: the plan has
another value there, and something that the provider decides and the configuration leaves out was
made unknown below the path, or inside an element of a set that the path goes through. -/
theorem kept_name_replaced_only_for_unknowns {actions : Resource.Actions σ}
    {schema : ActiveSchema σ} (hwhole : actions.modifyPlan = none) (hdefaults : schema.hasNoDefaults = true)
    (honly : schema.onlyReplaces = true) (hnames : schema.hasDistinctNames = true) {c : Change}
    {proposal : Value} (hproposal : proposal.Ordered)
    (hconfig : c.config.schema = schema.plain) (hschema : c.proposed.schema = schema.plain)
    (hproposed : schema.plain.fillAbsent proposal = .ok c.proposed.raw) {name : String}
    (hsame : (c.proposed.raw.entryOrNull name).same (c.prior.raw.entryOrNull name) = true)
    {privateState : PrivateState} {f : Frame σ δ} {path : Path}
    (hpath : path ∈ (planStages actions schema c privateState f).1.requiresReplace)
    (hstart : path.steps.head? = some (.field name)) :
    ((draft c).1.entryOrNull name).same (c.prior.raw.entryOrNull name) = false ∧
      schema.plain.Disturbs c.config.raw c.proposed.raw path := by
  have hordered := ordered_of_fillAbsent hproposal hproposed
  have hplain : c.proposed.schema.hasNoDefaults = true := by
    rw [hschema, hasNoDefaults_plain]
    exact hdefaults
  have hfilled : c.proposed.schema.fillAbsent c.proposed.raw = .ok c.proposed.raw := by
    rw [hschema]
    exact fillAbsent_idempotent hproposed
  obtain ⟨hdraft, hnull, world, hpath⟩ := planStages_requiresReplace hwhole hpath
  rcases draft_of_hasNoDefaults hplain hfilled hdraft hnull with ⟨heq, hunmoved⟩ | hwalk
  · refine replaced_of_accounted hconfig honly ?_ (.unmoved ?_) hpath hstart
    · rw [heq]
      exact hordered
    · rw [heq]
      exact hunmoved
  · have hmarked : Marked schema c.config.raw c.proposed.raw (.block schema.root) .root c.config.raw
        c.proposed.raw (draft c).1 := by
      refine ⟨rfl, hnames, rfl, rfl, hordered, ?_⟩
      rw [hschema] at hwalk
      exact hwalk
    exact replaced_of_accounted hconfig honly (ordered_of_unknownAt hwalk hordered)
      (.root hmarked hsame) hpath hstart

/-- A box with a label and a code, which the provider decides. Another box is another resource. -/
def boxSchema : ActiveSchema Nat :=
  let label : Attribute (Behaviour Nat) := ⟨.string, .optionalOnly, none, none, none, ⟨[], none⟩⟩
  let code : Attribute (Behaviour Nat) := ⟨.string, .computedOnly, none, none, none, ⟨[], none⟩⟩
  let box : Attribute (Behaviour Nat) := ⟨.dynamic, .optionalOnly, none,
    some ⟨.single, [("code", code), ("label", label)]⟩, none, ⟨[.requiresReplace], none⟩⟩
  let size : Attribute (Behaviour Nat) := ⟨.string, .optionalOnly, none, none, none, ⟨[], none⟩⟩
  ⟨0, ⟨[("box", box), ("size", size)], [], none⟩⟩

/-- The same box in another size. -/
def resizing : Change :=
  let box (code : Value) : Value := .map [("code", code), ("label", .string "a")]
  let thing (code : Value) (size : String) : Described :=
    ⟨.map [("box", box code), ("size", .string size)], boxSchema.plain⟩
  ⟨thing .null "large", thing (.string "7") "small", thing (.string "7") "large", ⟨.null, .empty⟩,
    .standard⟩

theorem resizing_requiresReplace :
    (planStages (idleActions Nat) boxSchema resizing .empty
      (⟨0, loneServer boxSchema, [], []⟩ : Frame Nat Unit)).1.requiresReplace =
        [Path.root.field "box"] := by
  have hnormalized : (planStages (idleActions Nat) boxSchema resizing .empty
      (⟨0, loneServer boxSchema, [], []⟩ : Frame Nat Unit)).1.requiresReplace =
        Path.normalize [Path.root.field "box"] := rfl
  rw [hnormalized]
  simp [Path.normalize, Path.dropRepeated]

theorem resizing_replaces_box_for_code :
    resizing.proposed.raw.Ordered ∧
    (resizing.proposed.raw.entryOrNull "box").same (resizing.prior.raw.entryOrNull "box") = true ∧
    (Path.root.field "box") ∈ (planStages (idleActions Nat) boxSchema resizing .empty
      (⟨0, loneServer boxSchema, [], []⟩ : Frame Nat Unit)).1.requiresReplace ∧
    ((draft resizing).1.entryOrNull "box").same (resizing.prior.raw.entryOrNull "box") = false ∧
    boxSchema.plain.Disturbs resizing.config.raw resizing.proposed.raw (Path.root.field "box") := by
  have hbox : (Value.map [("code", .string "7"), ("label", .string "a")]).Ordered :=
    Value.ordered_of_keys (by decide) (by simp)
  have hordered : resizing.proposed.raw.Ordered :=
    Value.ordered_of_keys (by decide) (by simp [hbox])
  have hreplaced : (Path.root.field "box") ∈ (planStages (idleActions Nat) boxSchema resizing .empty
      (⟨0, loneServer boxSchema, [], []⟩ : Frame Nat Unit)).1.requiresReplace := by
    rw [resizing_requiresReplace]
    exact List.mem_singleton_self _
  exact ⟨hordered, rfl, hreplaced,
    kept_name_replaced_only_for_unknowns rfl rfl rfl (by decide) hordered rfl rfl rfl rfl hreplaced
      rfl⟩

/-- The code becomes unknown with the new size, so the box is another one. -/
theorem resizing_replaces_kept_box :
    boxSchema.hasNoDefaults = true ∧ boxSchema.onlyReplaces = true ∧
    boxSchema.hasDistinctNames = true ∧
    boxSchema.plain.fillAbsent resizing.config.raw = .ok resizing.config.raw ∧
    boxSchema.plain.fillAbsent resizing.prior.raw = .ok resizing.prior.raw ∧
    boxSchema.plain.fillAbsent resizing.proposed.raw = .ok resizing.proposed.raw ∧
    resizing.prior.isNull = false ∧ resizing.proposed.isNull = false ∧
    (resizing.proposed.raw.entryOrNull "box").same (resizing.prior.raw.entryOrNull "box") = true ∧
    (planStages (idleActions Nat) boxSchema resizing .empty
      (⟨0, loneServer boxSchema, [], []⟩ : Frame Nat Unit)).1.requiresReplace =
        [Path.root.field "box"] :=
  ⟨rfl, rfl, by decide, rfl, rfl, rfl, rfl, rfl, rfl, resizing_requiresReplace⟩

end Server

end ProviderKit
