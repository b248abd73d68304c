import ProviderKit.Proofs.Plan.Asking
import ProviderKit.Proofs.Plan.Remarking
import ProviderKit.Proofs.Plan.Requests

-- What plan modifiers ask to have replaced, where they ask for nothing else and objects are not
-- nested in sets: the paths of exactly those attributes for which replacement is due, once each.

namespace ProviderKit

variable {σ : Type}

/-! ## What the plan has at a path -/

section

variable {β : Type} {n m : Node β} {v x y : Value} {s : Step} {steps : List Step}

theorem Value.holds_of_step? (hs : ∀ e, s ≠ .element e) (h : v.step? s = some x) : v.Holds s x := by
  cases s with
  | element e => exact absurd rfl (hs e)
  | field name =>
    cases v with
    | map es =>
      have hx : (Keyed.get? es name).getD .null = x := by
        rw [show Keyed.get? es name = some x from h]
        rfl
      rw [← hx]
      exact .field es name
    | _ => cases h
  | key k =>
    cases v with
    | map es => exact .key h
    | _ => cases h
  | index i =>
    cases v with
    | list xs => exact .index h
    | _ => cases h

theorem Value.step?_of_holds (hs : ∀ e, s ≠ .element e) (h : v.Holds s x) (hx : x ≠ .null) :
    v.step? s = some x := by
  cases h with
  | element _ => exact absurd rfl (hs x)
  | key h => exact h
  | index h => exact h
  | field es name =>
    rw [step?]
    cases hy : Keyed.get? es name with
    | none =>
      rw [hy] at hx
      exact absurd rfl hx
    | some y => rfl

theorem Value.not_holdsAt_null (hx : x ≠ .null) : ¬ Value.null.HoldsAt steps x := by
  intro h
  cases steps with
  | nil => exact hx h.symm
  | cons s steps =>
    obtain ⟨y, hy, _⟩ := h
    cases hy

/-- Outside sets, what a plan holds is what stands there, unless it is null. -/
theorem holdsAt_iff_reach? (hn : n.Reaches steps m)
    (hsets : ∀ steps k e, n.Reaches steps k → k.view ≠ .set e) (hx : x ≠ .null) :
    v.HoldsAt steps x ↔ v.reach? steps = some x := by
  induction steps generalizing n v with
  | nil =>
    rw [Value.reach?_nil, Option.some.injEq]
    exact Iff.rfl
  | cons s steps ih =>
    obtain ⟨k, hk, hm⟩ := hn
    have hs : ∀ e, s ≠ .element e := by
      rintro e rfl
      cases hk with
      | element _ hv => exact hsets [] n k rfl hv
    have hbelow : ∀ {y : Value}, y.HoldsAt steps x ↔ y.reach? steps = some x :=
      ih hm fun steps l e hl => hsets (s :: steps) l e ⟨k, hk, hl⟩
    rw [Value.reach?, Option.bind_eq_some_iff]
    constructor
    · rintro ⟨y, hy, h⟩
      have hne : y ≠ .null := by
        rintro rfl
        exact Value.not_holdsAt_null hx h
      exact ⟨y, Value.step?_of_holds hs hy hne, hbelow.mp h⟩
    · rintro ⟨y, hy, h⟩
      exact ⟨y, Value.holds_of_step? hs hy, hbelow.mpr h⟩

/-- The objects of a collection are no attributes. -/
theorem Node.element_ne_attr (hv : n.view = .list m ∨ n.view = .set m ∨ n.view = .map m)
    (a : Attribute β) : m ≠ .attr a := by
  rintro rfl
  cases n with
  | block b => simp [view] at hv
  | nestedObject attributes => simp [view] at hv
  | nestedBlock b =>
    simp only [view] at hv
    cases hm : b.mode <;> simp [hm, collected] at hv
  | attr b =>
    simp only [view] at hv
    cases hn : b.nested with
    | none => simp [hn] at hv
    | some nested =>
      simp only [hn] at hv
      cases hm : nested.mode <;> simp [hm, collected] at hv

/-- The last step to an attribute is its name. -/
theorem Node.Reaches.exists_field {a : Attribute β} (h : n.Reaches steps (.attr a))
    (hn : n ≠ .attr a) : ∃ above name k, steps = above ++ [.field name] ∧ n.Reaches above k ∧
      k.Leads (.field name) (.attr a) := by
  rcases List.eq_nil_or_concat steps with rfl | ⟨above, s, rfl⟩
  · exact absurd h hn
  · rw [List.concat_eq_append] at h ⊢
    obtain ⟨k, hk, l, hl, rfl⟩ := Node.reaches_append.mp h
    cases hl with
    | @member _ _ name _ hv hm => exact ⟨above, name, k, rfl, hk, .member hv hm⟩
    | item i hv => exact absurd rfl (element_ne_attr (.inl hv) a)
    | element v hv => exact absurd rfl (element_ne_attr (.inr (.inl hv)) a)
    | entry l hv => exact absurd rfl (element_ne_attr (.inr (.inr hv)) a)

end

/-! ## Replacements that are due -/

section

variable {s : ActiveSchema σ} {r : ModifyRequest} {n : Node (Behaviour σ)} {path : Path}
  {config state plan : Value} {steps : List Step}

/-- Where a traversal has come, replacement is asked for at the attributes below that the plan has
an object for, with what the configuration and the prior state have at their paths. -/
theorem asked_iff (hnames : s.hasDistinctNames = true) (h : Arrives s r n path config state)
    {p : Path} (hp : p.steps = path.steps ++ steps) :
    Asked r n path config state plan steps ↔ ∃ a x, n.Reaches steps (.attr a) ∧
      plan.HoldsAt steps x ∧ .requiresReplace ∈ a.behaviour.planModifiers ∧
      (r.at p (r.config.raw.atPathOrNull p) (r.state.raw.atPathOrNull p) x).replaces = true := by
  induction steps generalizing n path config state plan with
  | nil =>
    have hpath : p = path := by
      rw [List.append_nil] at hp
      exact congrArg Path.mk hp
    rw [hpath, ← h.config, ← h.state]
    constructor
    · rintro ⟨hmodifier, hreplaces⟩
      exact ⟨_, plan, rfl, rfl, hmodifier, hreplaces⟩
    · rintro ⟨a, x, rfl, rfl, hmodifier, hreplaces⟩
      exact .here hmodifier hreplaces
  | cons step steps ih =>
    have hp' : ∀ t : Step, t = step → p.steps = (path.push t).steps ++ steps := by
      rintro t rfl
      rw [Path.push_steps, List.append_assoc]
      exact hp
    constructor
    · intro hasked
      cases hasked with
      | @inside _ m _ _ _ _ x _ _ hm hx hasked =>
        obtain ⟨a, y, hreaches, hy, hrest⟩ := (ih (h.below hm) (hp' _ rfl)).mp hasked
        exact ⟨a, y, ⟨m, hm.leads (h.node hnames).2, hreaches⟩, ⟨x, hx, hy⟩, hrest⟩
    · rintro ⟨a, y, ⟨m, hm, hreaches⟩, ⟨x, hx, hy⟩, hrest⟩
      exact .inside hm.declares hx
        ((ih (h.below hm.declares) (hp' _ rfl)).mpr ⟨a, y, hreaches, hy, hrest⟩)

/-- A modifier that asks for replacement sees a reason exactly if the resource is there and stays,
the planned value is not the prior one, and the provider does not decide it in place of the
configuration. -/
theorem replaces_iff {a : Attribute (Behaviour σ)} (hschema : r.config.schema = s.plain)
    (ha : s.attributeAt path = .ok a) :
    (r.at path config state plan).replaces = true ↔ r.state.isNull = false ∧
      r.plan.isNull = false ∧ plan.same state = false ∧
      ¬ (a.flags.computed = true ∧ config = .null) := by
  have hattribute : r.config.schema.attributeAt path = .ok a.plain := by
    rw [hschema, attributeAt_eq_ok_iff]
    exact (attributeAt_eq_ok_iff.mp ha).mapBehaviour _
  have hcomputed : a.plain.flags.computed = a.flags.computed := by
    cases a
    rfl
  have hnull : config.isNull = true ↔ config = .null :=
    ⟨Value.eq_null_of_isNull, fun h => by rw [h]; rfl⟩
  unfold ModifierRequest.replaces ModifyRequest.at
  simp only [hattribute, hcomputed, ← hnull]
  cases r.state.isNull <;> cases r.plan.isNull <;> cases config.isNull <;>
    cases a.flags.computed <;> simp

/-- The plan has an object at `above` that declares this attribute, which asks for replacement. The
resource is there already, the attribute changes, and the provider does not decide its value in
place of the configuration. -/
structure ReplacementDue (s : ActiveSchema σ) (r : ModifyRequest) (above : Path) (name : String)
    (a : Attribute (Behaviour σ)) : Prop where
  declared : s.attributeAt (above.field name) = .ok a
  asks : .requiresReplace ∈ a.behaviour.planModifiers
  object : ∃ es, r.plan.raw.atPath above = .ok (.map es)
  stands : r.state.isNull = false
  changes : (r.plan.raw.atPathOrNull (above.field name)).same
    (r.state.raw.atPathOrNull (above.field name)) = false
  decided : ¬ (a.flags.computed = true ∧ r.config.raw.atPathOrNull (above.field name) = .null)

theorem askedAt_root_iff (hsets : s.HasNoSets) (hnames : s.hasDistinctNames = true)
    (hschema : r.config.schema = s.plain) {p : Path} :
    AskedAt r (.block s.root) .root r.config.raw r.state.raw r.plan.raw p ↔
      ∃ above name a, p = above.field name ∧ ReplacementDue s r above name a := by
  have hroot : Arrives s r (.block s.root) .root r.config.raw r.state.raw :=
    ⟨rfl, rfl, fun hnames => ⟨rfl, hnames⟩⟩
  -- The planned value of an attribute, once it is known that its object is there.
  have hplanned : ∀ (above : Path) {es : Keyed Value} (name : String),
      r.plan.raw.reach? above.steps = some (.map es) →
      r.plan.raw.atPathOrNull (above.field name) = (Keyed.get? es name).getD .null := by
    intro above es name hes
    rw [Path.field, Value.atPathOrNull_push, Value.atPathOrNull_eq, hes]
    rfl
  have hstays : ∀ {above : List Step} {es : Keyed Value},
      r.plan.raw.HoldsAt above (.map es) → r.plan.isNull = false := by
    intro above es hes
    cases hnull : r.plan.isNull with
    | false => rfl
    | true =>
      rw [Value.eq_null_of_isNull hnull] at hes
      exact absurd hes (Value.not_holdsAt_null nofun)
  constructor
  · rintro ⟨steps, hp, hasked⟩
    obtain ⟨a, x, hreaches, hx, hmodifier, hreplaces⟩ := (asked_iff hnames hroot hp).mp hasked
    obtain ⟨above, name, k, rfl, hk, hlast⟩ := hreaches.exists_field nofun
    obtain ⟨y, hy, z, hz, rfl⟩ := Value.holdsAt_append.mp hx
    cases hz with
    | field es name =>
      have hes := (holdsAt_iff_reach? (x := .map es) hk hsets nofun).mp hy
      have hpath : p = (⟨above⟩ : Path).field name := congrArg Path.mk hp
      rw [hpath, ← hplanned ⟨above⟩ name hes] at hreplaces
      have hdeclared : s.attributeAt ((⟨above⟩ : Path).field name) = .ok a :=
        attributeAt_eq_ok_iff.mpr hreaches
      obtain ⟨hstate, _, hchanges, hdecided⟩ := (replaces_iff hschema hdeclared).mp hreplaces
      exact ⟨⟨above⟩, name, a, hpath, hdeclared, hmodifier,
        ⟨es, (Value.atPath_eq_ok_iff _ _ _).mpr hes⟩, hstate, hchanges, hdecided⟩
  · rintro ⟨above, name, a, rfl, hdue⟩
    obtain ⟨es, hes⟩ := hdue.object
    have hes := (Value.atPath_eq_ok_iff _ _ _).mp hes
    have hreaches := attributeAt_eq_ok_iff.mp hdue.declared
    obtain ⟨k, hk, _⟩ := Node.reaches_append.mp hreaches
    have hobject := (holdsAt_iff_reach? (x := .map es) hk hsets nofun).mpr hes
    have hfield : r.plan.raw.HoldsAt (above.field name).steps
        (r.plan.raw.atPathOrNull (above.field name)) := by
      rw [hplanned above name hes]
      exact Value.holdsAt_append.mpr ⟨.map es, hobject, _, .field es name, rfl⟩
    have hreplaces := (replaces_iff hschema hdue.declared).mpr
      ⟨hdue.stands, hstays hobject, hdue.changes, hdue.decided⟩
    exact ⟨_, rfl, (asked_iff hnames hroot rfl).mpr
      ⟨a, _, hreaches, hfield, hdue.asks, hreplaces⟩⟩

end

/-! ## Whole plans -/

/-- Where no objects are nested in sets and plan modifiers ask for replacement only, they do
nothing but that: replacement is asked for, once each, at the paths of the attributes for which it
is due. -/
theorem requiresReplace_exact {s : ActiveSchema σ} {r : ModifyRequest} (hsets : s.HasNoSets)
    (hnames : s.hasDistinctNames = true) (honce : s.replacesAtMostOnce = true)
    (hschema : r.config.schema = s.plain) (hplan : r.plan.raw.Ordered) (world : σ) :
    ∃ replaced calls, s.modifyPlan r world = (⟨r.plan, replaced, [], r.privateData, calls⟩, world) ∧
      replaced.Pairwise (fun p q => p.same q = false) ∧
      ∀ path, path ∈ replaced ↔
        ∃ above name a, path = above.field name ∧ ReplacementDue s r above name a := by
  have hroot : (Node.block s.root).AsksOnly := ⟨hsets, hnames, honce⟩
  have hasks : Asks r.privateData
      (Modify.visitBlock r s.root .root r.config.raw r.state.raw r.plan.raw) r.plan.raw
      (AskedIn r .root r.config.raw r.state.raw ((Node.block s.root).Children r.plan.raw)) :=
    asks_visitBlock s.root rfl hroot hplan
  obtain ⟨calls, hrun, hprivate, hdiagnostics, hpairwise, hpaths⟩ := hasks [] world rfl
  refine ⟨calls.requiresReplace, calls, ?_, hpairwise, fun path => ?_⟩
  · rw [Schema.modifyPlan_eq, hrun]
    rw [List.nil_append] at hprivate ⊢
    simp only [hprivate, hdiagnostics]
  · rw [hpaths, ← askedAt_iff_of_ne_attr (by rintro a ⟨⟩)]
    exact askedAt_root_iff hsets hnames hschema

/-- The objects of the node are nested in a set. -/
def Node.isSet {β : Type} (n : Node β) : Bool :=
  match n.view with
  | .set _ => true
  | _ => false

theorem Schema.hasNoSets_of_every {β : Type} {s : Schema β}
    (h : s.every (fun n => !n.isSet) = true) : s.HasNoSets := by
  have hroot : (Node.block s.root).every (fun n => !n.isSet) = true := h
  intro steps n m hn hv
  have hset : n.isSet = false := by
    generalize Node.block s.root = root at hroot hn
    induction steps generalizing root with
    | nil =>
      rw [← hn]
      simpa using Node.self_of_every hroot
    | cons step steps ih =>
      obtain ⟨next, hnext, hn⟩ := hn
      exact ih next (hnext.declares.every hroot) hn
  rw [Node.isSet, hv] at hset
  cases hset

/-- Servers, each with a size and an id that the provider decides. New sizes and new ids make it
another one. -/
def serverSchema : ActiveSchema Nat :=
  let size : Attribute (Behaviour Nat) :=
    ⟨.string, .requiredOnly, none, none, none, ⟨[.requiresReplace], none⟩⟩
  let id : Attribute (Behaviour Nat) :=
    ⟨.string, .optionalComputed, none, none, none, ⟨[.requiresReplace], none⟩⟩
  let servers : Attribute (Behaviour Nat) :=
    ⟨.dynamic, .optionalOnly, none, some ⟨.list, [("id", id), ("size", size)]⟩, none, ⟨[], none⟩⟩
  ⟨0, ⟨[("servers", servers)], [], none⟩⟩

def servers (ids : List (Value × String)) : Value :=
  .map [("servers", .list (ids.map fun e => .map [("id", e.1), ("size", .string e.2)]))]

/-- The first server grows, and there is a second one. The configuration gives no ids. -/
def growing : ModifyRequest :=
  let described (ids : List (Value × String)) : Described := ⟨servers ids, serverSchema.plain⟩
  ⟨described [(.null, "large"), (.null, "small")],
    described [(.unknown, "large"), (.unknown, "small")], described [(.string "7", "small")],
    ⟨.null, .empty⟩, .empty⟩

theorem ordered_servers (ids : List (Value × String)) (h : ∀ e ∈ ids, e.1.Ordered) :
    (servers ids).Ordered := by
  refine Value.ordered_entry.mpr (.list fun x hx => ?_)
  obtain ⟨e, he, rfl⟩ := List.mem_map.mp hx
  have hkeys : ["id", "size"].Pairwise (· < ·) := by decide
  exact Value.ordered_of_keys hkeys (by simp [h e he])

theorem growing_requiresReplace :
    let size (i : Nat) : Path := ((Path.root.field "servers").index i).field "size"
    serverSchema.HasNoSets ∧ serverSchema.hasDistinctNames = true ∧
    serverSchema.replacesAtMostOnce = true ∧ growing.config.schema = serverSchema.plain ∧
    growing.plan.raw.Ordered ∧
    (serverSchema.modifyPlan growing 0).1.requiresReplace = [size 0, size 1] ∧
    ∀ path, path ∈ [size 0, size 1] ↔
      ∃ above name a, path = above.field name ∧
        ReplacementDue serverSchema growing above name a := by
  intro size
  have hsets : serverSchema.HasNoSets := Schema.hasNoSets_of_every rfl
  have hordered : growing.plan.raw.Ordered := ordered_servers _ (by simp)
  obtain ⟨replaced, calls, hrun, _, hpaths⟩ :=
    requiresReplace_exact (r := growing) hsets (by decide) rfl rfl hordered 0
  have hreplaced : replaced = [size 0, size 1] := by
    have heq := congrArg (fun result => result.1.requiresReplace) hrun
    exact heq.symm
  rw [hreplaced] at hpaths
  exact ⟨hsets, by decide, rfl, rfl, hordered, rfl, hpaths⟩

end ProviderKit
