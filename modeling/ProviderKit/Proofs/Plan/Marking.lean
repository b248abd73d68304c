import ProviderKit.Proofs.Plan.Marks
import ProviderKit.Proofs.Schema.Places
import ProviderKit.Schema.Build

-- What the stage of unknowns makes of a plan, place by place. Main statement: it replaces what
-- the provider decides and nobody configured, as far as nothing above was replaced already, and
-- everything else stays.

namespace ProviderKit

variable {β : Type}

/-! ## What the stage replaces -/

/-- The place is left open: its path leads to an attribute that the provider decides and that has
no default, and in the configuration the path leads to null or nowhere. -/
def Schema.LeavesOpen (s : Schema β) (config v : Value) (place : List Branch) : Prop :=
  ∃ path a, v.Spells place path.steps ∧ s.attributeAt path = .ok a ∧
    a.flags.computed = true ∧ a.default = none ∧ config.atPathOrNull path = .null

/-- The second value is the first one with its open places made unknown. -/
structure Schema.MarksExactly (s : Schema β) (config filled marked : Value) : Prop where
  /-- Where the two differ, below the root an open place was made unknown. -/
  differ : ∀ {place x y}, filled.at? place = some x → marked.at? place = some y →
    y.outline ≠ x.outline → place ≠ [] ∧ s.LeavesOpen config filled place ∧ y = .unknown
  /-- Every open place was made unknown, unless an open place stands above it. -/
  replaced : ∀ {place}, s.LeavesOpen config filled place →
    (∀ above, above <+: place → above ≠ place → ¬ s.LeavesOpen config filled above) →
    marked.at? place = some .unknown
  /-- Keys, lengths and values that stand at and below no open place are all the same. -/
  kept : ∀ {place}, (∀ above, above <+: place → ¬ s.LeavesOpen config filled above) →
    (marked.at? place).map Value.outline = (filled.at? place).map Value.outline
  /-- No place is new. -/
  present : ∀ {place y}, marked.at? place = some y → ∃ x, filled.at? place = some x

/-! ## Open places as a walk meets them -/

section

variable {config : Value} {path : Path} {position : Position β} {v w : Value}
  {place : List Branch}

/-- The walk that makes attributes unknown comes to an open place, if it is not stopped above. -/
def Position.Opens (config : Value) : Position β → Path → Value → List Branch → Prop
  | position, path, _, [] =>
    path.isRoot = false ∧ config.configures path = false ∧ position.isLeftToProvider = true
  | position, path, v, b :: place =>
    ∃ x c, v.part? b = some x ∧ position.child? x b = some c ∧
      c.position.Opens config (path.push c.step) x place

theorem Position.opens_cons_iff {b : Branch} {x : Value} {c : Child β} (hx : v.part? b = some x)
    (hc : position.child? x b = some c) : position.Opens config path v (b :: place) ↔
      c.position.Opens config (path.push c.step) x place := by
  rw [Opens]
  constructor
  · rintro ⟨_, _, hx', hc', h⟩
    cases hx.symm.trans hx'
    cases hc.symm.trans hc'
    exact h
  · intro h
    exact ⟨x, c, hx, hc, h⟩

/-- What is open is made unknown; otherwise the walk goes on below. -/
theorem Rebuilds.unknown_or_below (h : Rebuilds (unknownAt config) path position v w) :
    position.Opens config path v [] ∧ w = .unknown ∨
      ¬ position.Opens config path v [] ∧ RebuildsBelow (unknownAt config) path position v w := by
  obtain ⟨u, hu, hbelow⟩ := h
  rw [eq_of_unknownAt hu] at hbelow
  split at hbelow
  · next hopen =>
    rw [Bool.and_eq_true, Bool.and_eq_true, Bool.not_eq_true', Bool.not_eq_true'] at hopen
    exact .inl ⟨⟨hopen.1.1, hopen.1.2, hopen.2⟩, ((rebuildsBelow_of_atom_iff rfl).mp hbelow).1.symm⟩
  · next hopen =>
    refine .inr ⟨fun ⟨hroot, hconfig, hleft⟩ => hopen ?_, hbelow⟩
    rw [hroot, hconfig, hleft]
    rfl

theorem Rebuilds.below_of_not_opens (h : Rebuilds (unknownAt config) path position v w)
    (hopen : ¬ position.Opens config path v []) :
    RebuildsBelow (unknownAt config) path position v w := by
  rcases h.unknown_or_below with ⟨h, _⟩ | ⟨_, h⟩
  · exact absurd h hopen
  · exact h

/-- Where two values differ, the walk met an open place. -/
theorem Rebuilds.opens_of_outline_ne (h : Rebuilds (unknownAt config) path position v w)
    {x y : Value} (hx : v.at? place = some x) (hy : w.at? place = some y)
    (hne : y.outline ≠ x.outline) : position.Opens config path v place ∧ y = .unknown := by
  induction place generalizing path position v w with
  | nil =>
    cases hx
    cases hy
    rcases h.unknown_or_below with ⟨hopen, hw⟩ | ⟨_, hbelow⟩
    · exact ⟨hopen, hw⟩
    · exact absurd hbelow.outline_eq hne
  | cons b place ih =>
    obtain ⟨x', hx', hx⟩ := Option.bind_eq_some_iff.mp hx
    obtain ⟨y', hy', hy⟩ := Option.bind_eq_some_iff.mp hy
    rcases h.unknown_or_below with ⟨_, rfl⟩ | ⟨_, hbelow⟩
    · cases b <;> cases hy'
    · have hrel := hbelow.part? b
      rw [hx', hy'] at hrel
      obtain ⟨_, hz, c, hc, hr⟩ := exists_of_rel_some_left hrel
      cases hz
      rw [Position.opens_cons_iff hx' hc]
      exact ih hr hx hy

/-- An open place is made unknown when no place above it is open. -/
theorem Rebuilds.at?_of_opens (h : Rebuilds (unknownAt config) path position v w)
    (hopen : position.Opens config path v place)
    (habove : ∀ above, above <+: place → above ≠ place → ¬ position.Opens config path v above) :
    w.at? place = some .unknown := by
  induction place generalizing path position v w with
  | nil =>
    rcases h.unknown_or_below with ⟨_, rfl⟩ | ⟨hnot, _⟩
    · rfl
    · exact absurd hopen hnot
  | cons b place ih =>
    have hbelow := h.below_of_not_opens (habove [] List.nil_prefix (List.cons_ne_nil b place).symm)
    obtain ⟨x, c, hx, hc, hopen⟩ := hopen
    have hrel := hbelow.part? b
    rw [hx] at hrel
    obtain ⟨y, hy, c', hc', hr⟩ := exists_of_rel_some_left hrel
    cases hc.symm.trans hc'
    rw [Value.at?, hy]
    refine ih hr hopen (fun above hprefix hne => ?_)
    rw [← Position.opens_cons_iff hx hc]
    exact habove (b :: above) (List.cons_prefix_cons.mpr ⟨rfl, hprefix⟩)
      (fun heq => hne (List.cons.inj heq).2)

/-- Where nothing is open on the way, keys, lengths and values stay. -/
theorem Rebuilds.outline_at? (h : Rebuilds (unknownAt config) path position v w)
    (habove : ∀ above, above <+: place → ¬ position.Opens config path v above) :
    (w.at? place).map Value.outline = (v.at? place).map Value.outline := by
  induction place generalizing path position v w with
  | nil =>
    have hbelow := h.below_of_not_opens (habove [] List.nil_prefix)
    exact congrArg some hbelow.outline_eq
  | cons b place ih =>
    have hbelow := h.below_of_not_opens (habove [] List.nil_prefix)
    have hrel := hbelow.part? b
    rw [Value.at?, Value.at?]
    cases hx : v.part? b with
    | none =>
      rw [hx] at hrel
      generalize w.part? b = o at hrel
      cases hrel
      rfl
    | some x =>
      rw [hx] at hrel
      obtain ⟨y, hy, c, hc, hr⟩ := exists_of_rel_some_left hrel
      rw [hy]
      refine ih hr (fun above hprefix => ?_)
      rw [← Position.opens_cons_iff hx hc]
      exact habove (b :: above) (List.cons_prefix_cons.mpr ⟨rfl, hprefix⟩)

/-- The walk makes no new places. -/
theorem Rebuilds.exists_at? (h : Rebuilds (unknownAt config) path position v w) {y : Value}
    (hy : w.at? place = some y) : ∃ x, v.at? place = some x := by
  induction place generalizing path position v w with
  | nil => exact ⟨v, rfl⟩
  | cons b place ih =>
    obtain ⟨y', hy', hy⟩ := Option.bind_eq_some_iff.mp hy
    rcases h.unknown_or_below with ⟨_, rfl⟩ | ⟨_, hbelow⟩
    · cases b <;> cases hy'
    · have hrel := hbelow.part? b
      rw [hy'] at hrel
      obtain ⟨x', hx', c, hc, hr⟩ := exists_of_rel_some_right hrel
      rw [Value.at?, hx']
      exact ih hr hy

/-! ## Open places as paths name them -/

/-- Only places that the schema describes are open. -/
theorem Position.Opens.exists_node (h : position.Opens config path v place) :
    ∃ n, position = .described n := by
  induction place generalizing path position v with
  | nil =>
    obtain ⟨a, ha, _⟩ := exists_attr_of_isLeftToProvider h.2.2
    exact ⟨.attr a, ha⟩
  | cons b place ih =>
    obtain ⟨x, c, hx, hc, h⟩ := h
    obtain ⟨m, hm⟩ := ih h
    obtain ⟨n, hn, _⟩ := leads_of_child? hc hm
    exact ⟨n, hn⟩

/-- The places that a walk meets as open from a node on are those whose steps lead from the node to
an attribute that is left to the provider. -/
theorem Position.opens_iff {n : Node β} : (described n).Opens config path v place ↔
    ∃ steps a, v.Spells place steps ∧ n.Reaches steps (.attr a) ∧ a.isLeftToProvider = true ∧
      (path.steps ++ steps).isEmpty = false ∧ config.configures ⟨path.steps ++ steps⟩ = false := by
  induction place generalizing n path v with
  | nil =>
    constructor
    · rintro ⟨hroot, hconfig, hleft⟩
      obtain ⟨a, ha, hleft⟩ := exists_attr_of_isLeftToProvider hleft
      cases ha
      refine ⟨[], a, rfl, rfl, hleft, ?_⟩
      rw [List.append_nil]
      exact ⟨hroot, hconfig⟩
    · rintro ⟨_, a, rfl, rfl, hleft, hroot, hconfig⟩
      rw [List.append_nil] at hroot hconfig
      exact ⟨hroot, hconfig, hleft⟩
  | cons b place ih =>
    constructor
    · rintro ⟨x, c, hx, hc, h⟩
      obtain ⟨m, hm⟩ := h.exists_node
      obtain ⟨n', hn', hleads⟩ := leads_of_child? hc hm
      cases hn'
      rw [hm, ih] at h
      obtain ⟨steps, a, hspells, hreaches, hleft, hopen⟩ := h
      rw [Path.push_steps, List.append_assoc] at hopen
      exact ⟨c.step :: steps, a, ⟨x, c.step, steps, hx, names_of_child? hc, hspells, rfl⟩,
        ⟨m, hleads, hreaches⟩, hleft, hopen⟩
    · rintro ⟨_, a, ⟨x, s, steps, hx, hnames, hspells, rfl⟩, ⟨m, hleads, hreaches⟩, hleft, hopen⟩
      refine ⟨x, ⟨s, .described m⟩, hx, child?_of_leads hleads hnames, ih.mpr ?_⟩
      refine ⟨steps, a, hspells, hreaches, hleft, ?_⟩
      rw [Path.push_steps, List.append_assoc]
      exact hopen

end

theorem Attribute.isLeftToProvider_iff {a : Attribute β} :
    a.isLeftToProvider = true ↔ a.flags.computed = true ∧ a.default = none := by
  rw [isLeftToProvider, hasDefault, Bool.and_eq_true, Bool.not_eq_true', Option.isSome_eq_false_iff,
    Option.isNone_iff_eq_none]

theorem Schema.leavesOpen_iff {s : Schema β} {config v : Value} {place : List Branch} :
    s.LeavesOpen config v place ↔
      (Position.described (.block s.root)).Opens config .root v place := by
  rw [Position.opens_iff]
  constructor
  · rintro ⟨path, a, hspells, ha, hcomputed, hdefault, hnull⟩
    have hreaches := attributeAt_eq_ok_iff.mp ha
    refine ⟨path.steps, a, hspells, hreaches,
      Attribute.isLeftToProvider_iff.mpr ⟨hcomputed, hdefault⟩, ?_,
      Value.configures_eq_false_iff.mpr hnull⟩
    -- The root is a block, so no attribute stands there.
    cases hsteps : path.steps with
    | nil =>
      rw [hsteps] at hreaches
      cases hreaches
    | cons s steps => rfl
  · rintro ⟨steps, a, hspells, hreaches, hleft, _, hconfig⟩
    obtain ⟨hcomputed, hdefault⟩ := Attribute.isLeftToProvider_iff.mp hleft
    exact ⟨⟨steps⟩, a, hspells, attributeAt_eq_ok_iff.mpr hreaches, hcomputed, hdefault,
      Value.configures_eq_false_iff.mp hconfig⟩

/-! ## The stage as a whole -/

/-- The stage of unknowns makes unknown what the provider decides and nobody configured, and
changes nothing else. -/
theorem markUnknowns_marksExactly {s : Schema β} {config plan marked : Value}
    (h : s.markUnknowns config plan = .ok marked) :
    ∃ filled, s.fillAbsent plan = .ok filled ∧ s.MarksExactly config filled marked := by
  obtain ⟨filled, hf, hwalk⟩ := markUnknowns_eq_ok_iff.mp h
  refine ⟨filled, hf, ?_⟩
  constructor
  case differ =>
    intro place x y hx hy hne
    obtain ⟨hopen, hunknown⟩ := hwalk.opens_of_outline_ne hx hy hne
    refine ⟨?_, Schema.leavesOpen_iff.mpr hopen, hunknown⟩
    rintro rfl
    cases hopen.1
  case replaced =>
    intro place hopen habove
    refine hwalk.at?_of_opens (Schema.leavesOpen_iff.mp hopen) (fun above hprefix hne => ?_)
    rw [← Schema.leavesOpen_iff]
    exact habove above hprefix hne
  case kept =>
    intro place habove
    refine hwalk.outline_at? (fun above hprefix => ?_)
    rw [← Schema.leavesOpen_iff]
    exact habove above hprefix
  case present =>
    intro place y hy
    exact hwalk.exists_at? hy

/-- Rules in a set; the provider numbers them, and names those that the user does not name. -/
def numberedRules : PlainSchema :=
  let rules : Attribute Unit :=
    Attribute.ofNested .set [("id", .computedString), ("name", .optionalComputedString)]
      .optionalOnly
  ⟨0, ⟨[("rules", rules)], [], none⟩⟩

/-- One rule that has a name, and an id or none. -/
def webRule (id : Value) : Value :=
  .map [("rules", .list [.map [("id", id), ("name", .string "web")]])]

theorem markUnknowns_webRule_marksExactly :
    numberedRules.markUnknowns (webRule .null) (webRule .null) = .ok (webRule .unknown) ∧
    ∃ filled, numberedRules.fillAbsent (webRule .null) = .ok filled ∧
      numberedRules.MarksExactly (webRule .null) filled (webRule .unknown) :=
  ⟨rfl, markUnknowns_marksExactly rfl⟩

end ProviderKit
