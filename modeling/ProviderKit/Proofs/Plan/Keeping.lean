import ProviderKit.Proofs.Plan.Stages
import ProviderKit.Proofs.Value.Equality
import ProviderKit.Schema.Build
import ProviderKit.Server.Plan

-- What the user configured stays planned when a resource is created, except inside one kind
-- of set element. The elements of a set are found by their values, so once a default has
-- changed an element, the configuration no longer has that element, and what is configured
-- inside it counts as left out.

namespace ProviderKit

variable {β : Type}

/-! ## Where the configuration is lost -/

/-- Somewhere in the value something is known that is left to the provider. -/
inductive Position.SetsComputed : Position β → Value → Prop
  | here {position v} : position.isLeftToProvider = true → v.isKnown = true →
      SetsComputed position v
  | item {position child xs i x} : Position.itemChild position = some child → xs[i]? = some x →
      SetsComputed (child i x).position x → SetsComputed position (.list xs)
  | entry {position child es k x} : Position.entryChild position = some child →
      Keyed.get? es k = some x → SetsComputed (child k).position x →
      SetsComputed position (.map es)

/-- Beside a configured value and the same value after the defaults stage: an element of a set
was changed into one that the configured set does not have, and something inside it is
configured that is left to the provider. -/
inductive Position.LosesElement : Position β → Value → Value → Prop
  | here {position child xs zs i x z} : Position.itemChild position = some child →
      xs[i]? = some x → zs[i]? = some z → (child i z).step = .element z →
      (∀ y ∈ xs, y.same z = false) → (child i z).position.SetsComputed x →
      LosesElement position (.list xs) (.list zs)
  | item {position child xs zs i x z} : Position.itemChild position = some child →
      xs[i]? = some x → zs[i]? = some z → (child i z).step = .index i →
      LosesElement (child i z).position x z → LosesElement position (.list xs) (.list zs)
  | entry {position child es gs k x z} : Position.entryChild position = some child →
      Keyed.get? es k = some x → Keyed.get? gs k = some z →
      LosesElement (child k).position x z → LosesElement position (.map es) (.map gs)

theorem Position.SetsComputed.isKnown {position : Position β} {v : Value}
    (h : position.SetsComputed v) : v.isKnown = true := by
  cases h with
  | here _ hv => exact hv
  | item _ _ _ => rfl
  | entry _ _ _ => rfl

/-- Where nothing is left to the provider, something further down is. -/
theorem setsComputed_list_iff {position : Position β} {child : Nat → Value → Position.Child β}
    (hl : position.isLeftToProvider = false) (hc : position.itemChild = some child)
    {xs : List Value} : position.SetsComputed (.list xs) ↔
      ∃ (i : Nat) (x : Value), xs[i]? = some x ∧ (child i x).position.SetsComputed x := by
  constructor
  · intro h
    cases h with
    | here h _ => rw [hl] at h; cases h
    | item hc' hx h =>
      rw [hc] at hc'
      cases hc'
      exact ⟨_, _, hx, h⟩
  · rintro ⟨i, x, hx, h⟩
    exact .item hc hx h

theorem setsComputed_map_iff {position : Position β} {child : String → Position.Child β}
    (hl : position.isLeftToProvider = false) (hc : position.entryChild = some child)
    {es : List (String × Value)} : position.SetsComputed (.map es) ↔
      ∃ (k : String) (x : Value), Keyed.get? es k = some x ∧ (child k).position.SetsComputed x := by
  constructor
  · intro h
    cases h with
    | here h _ => rw [hl] at h; cases h
    | entry hc' hx h =>
      rw [hc] at hc'
      cases hc'
      exact ⟨_, _, hx, h⟩
  · rintro ⟨k, x, hx, h⟩
    exact .entry hc hx h

/-! ## What a walk keeps of contents -/

section

variable {visit : Visit β (Except Fault)} {path : Path}

/-- A list keeps all items that are not lost. -/
theorem RebuildsItems.keeps_iff {child : Nat → Value → Position.Child β} {xs zs ws : List Value}
    (h : RebuildsItems visit path child 0 zs ws) (lost : Nat → Value → Value → Prop)
    (hxz : (Value.list xs).Keeps (.list zs))
    (hitem : ∀ (i : Nat) x z w, xs[i]? = some x → zs[i]? = some z → x.Keeps z →
      Rebuilds visit (path.push (child i z).step) (child i z).position z w →
      (x.Keeps w ↔ ¬ lost i x z)) :
    (Value.list xs).Keeps (.list ws) ↔
      ∀ (i : Nat) x z, xs[i]? = some x → zs[i]? = some z → ¬ lost i x z := by
  constructor
  · intro hws i x z hx hz hl
    have hrel := h.getElem? i
    rw [hz, Nat.zero_add] at hrel
    obtain ⟨w, hw, hrel⟩ := exists_of_rel_some_left hrel
    obtain ⟨z', hz', hxz'⟩ := hxz.getElem? hx
    obtain ⟨w', hw', hxw⟩ := hws.getElem? hx
    rw [hz] at hz'
    rw [hw] at hw'
    cases hz'
    cases hw'
    exact (hitem i x z w hx hz hxz' hrel).mp hxw hl
  · intro hlost
    refine .list (hxz.length_eq.trans h.length_eq) (fun i x w hx hw => ?_)
    obtain ⟨z, hz, hxz'⟩ := hxz.getElem? hx
    have hrel := h.getElem? i
    rw [hz, hw, Nat.zero_add] at hrel
    cases hrel with
    | some hrel => exact (hitem i x z w hx hz hxz' hrel).mpr (hlost i x z hx hz)

/-- A map keeps all entries that are not lost. -/
theorem RebuildsEntries.keeps_iff {child : String → Position.Child β}
    {es gs fs : List (String × Value)} (h : RebuildsEntries visit path child gs fs)
    (lost : String → Value → Value → Prop) (hxz : (Value.map es).Keeps (.map gs))
    (hentry : ∀ k x z w, Keyed.get? es k = some x → Keyed.get? gs k = some z → x.Keeps z →
      Rebuilds visit (path.push (child k).step) (child k).position z w →
      (x.Keeps w ↔ ¬ lost k x z)) :
    (Value.map es).Keeps (.map fs) ↔
      ∀ k x z, Keyed.get? es k = some x → Keyed.get? gs k = some z → ¬ lost k x z := by
  constructor
  · intro hfs k x z hx hz hl
    have hrel := h.get? k
    rw [hz] at hrel
    obtain ⟨w, hw, hrel⟩ := exists_of_rel_some_left hrel
    obtain ⟨z', hz', hxz'⟩ := hxz.get? hx
    obtain ⟨w', hw', hxw⟩ := hfs.get? hx
    rw [hz] at hz'
    rw [hw] at hw'
    cases hz'
    cases hw'
    exact (hentry k x z w hx hz hxz' hrel).mp hxw hl
  · intro hlost
    refine .of_get? (fun k x hx => ?_)
    obtain ⟨z, hz, hxz'⟩ := hxz.get? hx
    have hrel := h.get? k
    rw [hz] at hrel
    obtain ⟨w, hw, hrel⟩ := exists_of_rel_some_left hrel
    exact ⟨w, hw, (hentry k x z w hx hz hxz' hrel).mpr (hlost k x z hx hz)⟩

end

/-! ## Where the configuration has the planned value -/

/-- The configuration has an equal value at the path. -/
def Found (config : Value) (path : Path) (v : Value) : Prop :=
  ∃ x, config.reach? path.steps = some x ∧ x.same v = true

theorem found_root (config : Value) : Found config .root config :=
  ⟨config, rfl, config.same_self⟩

section

variable {config : Value} {path : Path} {position : Position β}

theorem Found.configures {v : Value} (h : Found config path v) (hv : v.isNull = false) :
    config.configures path = true := by
  obtain ⟨x, hx, hs⟩ := h
  exact (Value.configures_iff config path).mpr ⟨x, hx, (Value.isNull_eq_of_same hs).trans hv⟩

theorem Found.step {v w : Value} (h : Found config path v) {s : Step}
    (hs : ∃ y, v.step? s = some y ∧ y.same w = true) : Found config (path.push s) w := by
  obtain ⟨x, hx, hxv⟩ := h
  obtain ⟨y, hy, hyw⟩ := hs
  have hrel := Value.step?_same hxv s
  rw [hy] at hrel
  obtain ⟨z, hz, hzy⟩ := exists_of_rel_some_right hrel
  refine ⟨z, ?_, Value.same_trans z hzy hyw⟩
  rw [Value.reach?_push, hx]
  exact hz

theorem Found.item {xs : List Value} (h : Found config path (.list xs))
    {child : Nat → Value → Position.Child β} (hc : position.itemChild = some child) {i : Nat}
    {x : Value} (hx : xs[i]? = some x) : Found config (path.push (child i x).step) x := by
  rcases Position.itemChild_step hc i x with hs | hs
  · rw [hs]
    exact h.step ⟨x, hx, x.same_self⟩
  · rw [hs]
    exact h.step (Value.find?_of_mem (List.mem_of_getElem? hx))

theorem Found.entry {es : List (String × Value)} (h : Found config path (.map es))
    {child : String → Position.Child β} (hc : position.entryChild = some child) {k : String}
    {x : Value} (hx : Keyed.get? es k = some x) : Found config (path.push (child k).step) x :=
  h.step ⟨x, (Position.step?_entryChild hc es k).trans hx, x.same_self⟩

/-- A visitor that leaves alone what is configured keeps what the configuration has. -/
theorem Found.keeps {visit : Visit β (Except Fault)}
    (hvisit : ∀ {path} {node : Except Fault (Node β)} {v u}, config.configures path = true →
      visit path node v = .ok u → u = v)
    {v w : Value} (hf : Found config path v) (h : Rebuilds visit path position v w) :
    v.Keeps w := by
  induction v using Value.contentsInduction generalizing path position w with
  | atom v hv =>
    cases hn : v.isNull with
    | true =>
      rw [Value.eq_null_of_isNull hn]
      exact .null w
    | false =>
      obtain ⟨u, hu, hbelow⟩ := h
      rw [hvisit (hf.configures hn) hu] at hbelow
      rw [← ((rebuildsBelow_of_atom_iff hv).mp hbelow).1]
      exact .refl v
  | list xs ih =>
    obtain ⟨u, hu, hbelow⟩ := h
    rw [hvisit (hf.configures rfl) hu] at hbelow
    obtain ⟨ws, child, rfl, hc, hitems⟩ := rebuildsBelow_of_list_iff.mp hbelow
    refine (hitems.keeps_iff (fun _ _ _ => False) (.refl _) ?_).mpr (fun _ _ _ _ _ => id)
    intro i x z w hx hz _ hr
    rw [hx] at hz
    cases hz
    exact iff_of_true (ih x (List.mem_of_getElem? hx) (hf.item hc hx) hr) id
  | map es ih =>
    obtain ⟨u, hu, hbelow⟩ := h
    rw [hvisit (hf.configures rfl) hu] at hbelow
    obtain ⟨fs, child, rfl, hc, hentries⟩ := rebuildsBelow_of_map_iff.mp hbelow
    refine (hentries.keeps_iff (fun _ _ _ => False) (.refl _) ?_).mpr (fun _ _ _ _ _ => id)
    intro k x z w hx hz _ hr
    rw [hx] at hz
    cases hz
    exact iff_of_true (ih (k, x) (Keyed.mem_of_get? hx) (hf.entry hc hx) hr) id

theorem Found.keeps_of_defaulting {v w : Value} (hf : Found config path v)
    (h : Rebuilds (defaulting config) path position v w) : v.Keeps w :=
  hf.keeps (fun hc hu => (Except.ok.inj hu).symm.trans (defaultAt_of_configures hc)) h

theorem Found.keeps_of_unknownAt {v w : Value} (hf : Found config path v)
    (h : Rebuilds (unknownAt config) path position v w) : v.Keeps w :=
  hf.keeps (fun hc hu => Except.ok.inj (hu.symm.trans (unknownAt_of_configures hc))) h

/-! ## Where the configuration is out of reach -/

theorem reach?_push_of_unreached (hp : config.reach? path.steps = none) (s : Step) :
    config.reach? (path.push s).steps = none := by
  rw [Value.reach?_push, hp]
  rfl

theorem isRoot_of_unreached (hp : config.reach? path.steps = none) : path.isRoot = false := by
  cases hr : path.isRoot with
  | false => rfl
  | true =>
    rw [List.isEmpty_iff.mp hr] at hp
    cases hp

theorem eq_of_unknownAt_unreached (hp : config.reach? path.steps = none) {v u : Value}
    (h : unknownAt config path (position.node path) v = .ok u) :
    u = if position.isLeftToProvider then .unknown else v := by
  rw [eq_of_unknownAt h, isRoot_of_unreached hp, Value.configures_of_reach?_eq_none hp]
  rfl

/-- What is left to the provider keeps nothing that is known. -/
theorem keeps_iff_of_left (hl : position.isLeftToProvider = true) (x : Value) :
    x.Keeps .unknown ↔ ¬ position.SetsComputed x := by
  rw [Value.Keeps.unknown_iff]
  constructor
  · intro hk hs
    rw [hs.isKnown] at hk
    cases hk
  · intro hs
    cases hk : x.isKnown with
    | false => rfl
    | true => exact absurd (.here hl hk) hs

theorem keeps_iff_of_unreached_of_below {x z w : Value} (hp : config.reach? path.steps = none)
    (h : Rebuilds (unknownAt config) path position z w)
    (hbelow : position.isLeftToProvider = false →
      RebuildsBelow (unknownAt config) path position z w →
      (x.Keeps w ↔ ¬ position.SetsComputed x)) :
    x.Keeps w ↔ ¬ position.SetsComputed x := by
  obtain ⟨u, hu, hw⟩ := h
  rw [eq_of_unknownAt_unreached hp hu] at hw
  cases hl : position.isLeftToProvider with
  | true =>
    rw [hl, if_pos rfl] at hw
    rw [← ((rebuildsBelow_of_atom_iff rfl).mp hw).1]
    exact keeps_iff_of_left hl x
  | false =>
    rw [hl, if_neg Bool.false_ne_true] at hw
    exact hbelow hl hw

/-- Below a place that the configuration does not have, all that is left to the provider is
made unknown. -/
theorem keeps_iff_of_unreached {x z w : Value} (hp : config.reach? path.steps = none)
    (hxz : x.Keeps z) (h : Rebuilds (unknownAt config) path position z w) :
    x.Keeps w ↔ ¬ position.SetsComputed x := by
  induction x using Value.contentsInduction generalizing path position z w with
  | atom x hx =>
    refine keeps_iff_of_unreached_of_below hp h (fun hl hbelow => ?_)
    refine iff_of_true ?_ (fun hs => ?_)
    · cases hn : x.isNull with
      | true =>
        rw [Value.eq_null_of_isNull hn]
        exact .null w
      | false =>
        rw [hxz.eq_of_atom hx hn] at hbelow
        rw [← ((rebuildsBelow_of_atom_iff hx).mp hbelow).1]
        exact .refl x
    · cases hs with
      | here h _ => rw [hl] at h; cases h
      | item _ _ _ => cases hx
      | entry _ _ _ => cases hx
  | list xs ih =>
    refine keeps_iff_of_unreached_of_below hp h (fun hl hbelow => ?_)
    obtain ⟨zs, rfl⟩ := hxz.exists_list
    obtain ⟨ws, child, rfl, hc, hitems⟩ := rebuildsBelow_of_list_iff.mp hbelow
    rw [setsComputed_list_iff hl hc,
      hitems.keeps_iff (fun i x _ => (child i x).position.SetsComputed x) hxz ?_]
    · constructor
      · rintro hlost ⟨i, x, hx, hs⟩
        obtain ⟨z, hz, _⟩ := hxz.getElem? hx
        exact hlost i x z hx hz hs
      · intro hs i x z hx _ hl
        exact hs ⟨i, x, hx, hl⟩
    · intro i x z w hx _ hk hr
      rw [Position.itemChild_position hc i i z x] at hr
      exact ih x (List.mem_of_getElem? hx) (reach?_push_of_unreached hp _) hk hr
  | map es ih =>
    refine keeps_iff_of_unreached_of_below hp h (fun hl hbelow => ?_)
    obtain ⟨gs, rfl⟩ := hxz.exists_map
    obtain ⟨fs, child, rfl, hc, hentries⟩ := rebuildsBelow_of_map_iff.mp hbelow
    rw [setsComputed_map_iff hl hc,
      hentries.keeps_iff (fun k x _ => (child k).position.SetsComputed x) hxz
      (fun k x z w hx _ hk hr =>
        ih (k, x) (Keyed.mem_of_get? hx) (reach?_push_of_unreached hp _) hk hr)]
    constructor
    · rintro hlost ⟨k, x, hx, hs⟩
      obtain ⟨z, hz, _⟩ := hxz.get? hx
      exact hlost k x z hx hz hs
    · intro hs k x z hx _ hl
      exact hs ⟨k, x, hx, hl⟩

/-! ## Where the configuration is reached -/

/-- Of two items at one index, the second is lost, or something in it. -/
def LostItem (child : Nat → Value → Position.Child β) (xs : List Value) (i : Nat) (x z : Value) :
    Prop :=
  ((child i z).step = .element z ∧ (∀ y ∈ xs, y.same z = false) ∧
    (child i z).position.SetsComputed x) ∨
  ((child i z).step = .index i ∧ (child i z).position.LosesElement x z)

theorem losesElement_list_iff {child : Nat → Value → Position.Child β}
    (hc : position.itemChild = some child) {xs zs : List Value} :
    position.LosesElement (.list xs) (.list zs) ↔ ∃ (i : Nat) (x z : Value),
      xs[i]? = some x ∧ zs[i]? = some z ∧ LostItem child xs i x z := by
  constructor
  · intro h
    cases h with
    | here hc' hx hz hs hnone h =>
      rw [hc] at hc'
      cases hc'
      exact ⟨_, _, _, hx, hz, .inl ⟨hs, hnone, h⟩⟩
    | item hc' hx hz hs h =>
      rw [hc] at hc'
      cases hc'
      exact ⟨_, _, _, hx, hz, .inr ⟨hs, h⟩⟩
  · rintro ⟨i, x, z, hx, hz, ⟨hs, hnone, h⟩ | ⟨hs, h⟩⟩
    · exact .here hc hx hz hs hnone h
    · exact .item hc hx hz hs h

theorem losesElement_map_iff {child : String → Position.Child β}
    (hc : position.entryChild = some child) {es gs : List (String × Value)} :
    position.LosesElement (.map es) (.map gs) ↔ ∃ (k : String) (x z : Value),
      Keyed.get? es k = some x ∧ Keyed.get? gs k = some z ∧
        (child k).position.LosesElement x z := by
  constructor
  · intro h
    cases h with
    | entry hc' hx hz h =>
      rw [hc] at hc'
      cases hc'
      exact ⟨_, _, _, hx, hz, h⟩
  · rintro ⟨k, x, z, hx, hz, h⟩
    exact .entry hc hx hz h

/-- What is configured is left as it is. -/
theorem rebuildsBelow_of_reached {x z w : Value} (hp : config.reach? path.steps = some x)
    (hx : x.isNull = false) (h : Rebuilds (unknownAt config) path position z w) :
    RebuildsBelow (unknownAt config) path position z w := by
  obtain ⟨u, hu, hw⟩ := h
  rw [unknownAt_of_configures ((Value.configures_iff config path).mpr ⟨x, hp, hx⟩)] at hu
  cases hu
  exact hw

/-- An item is reached by its index. As an element of a set it is found by its value, or else
the configuration does not have it any more. -/
theorem item_keeps_iff {child : Nat → Value → Position.Child β}
    (hc : position.itemChild = some child) {xs : List Value}
    (hp : config.reach? path.steps = some (.list xs)) {i : Nat} {x z w : Value}
    (hx : xs[i]? = some x) (hxz : x.Keeps z)
    (h : Rebuilds (unknownAt config) (path.push (child i z).step) (child i z).position z w)
    (hindex : config.reach? (path.push (.index i)).steps = some x →
      Rebuilds (unknownAt config) (path.push (.index i)) (child i z).position z w →
      (x.Keeps w ↔ ¬ (child i z).position.LosesElement x z)) :
    x.Keeps w ↔ ¬ LostItem child xs i x z := by
  have hstep : ∀ s, config.reach? (path.push s).steps = (Value.list xs).step? s := by
    intro s
    rw [Value.reach?_push, hp]
    rfl
  rcases Position.itemChild_step hc i z with hs | hs
  · rw [hs] at h
    rw [hindex ((hstep _).trans hx) h, LostItem, hs]
    simp
  · rw [hs] at h
    cases hf : xs.find? fun item => item.same z with
    | some y =>
      have hfound : Found config (path.push (.element z)) z := by
        have hy := List.find?_some hf
        exact ⟨y, (hstep _).trans hf, hy⟩
      refine iff_of_true (hxz.trans (hfound.keeps_of_unknownAt h)) ?_
      rintro (⟨_, hnone, _⟩ | ⟨hi, _⟩)
      · have hy := List.find?_some hf
        have hn := hnone y (List.mem_of_find?_eq_some hf)
        rw [hn] at hy
        cases hy
      · rw [hs] at hi
        cases hi
    | none =>
      have hnone : ∀ y ∈ xs, y.same z = false := fun y hy =>
        Bool.eq_false_iff.mpr (List.find?_eq_none.mp hf y hy)
      rw [keeps_iff_of_unreached ((hstep (.element z)).trans hf) hxz h]
      refine not_congr ⟨fun hset => .inl ⟨hs, hnone, hset⟩, ?_⟩
      rintro (⟨_, _, hset⟩ | ⟨hi, _⟩)
      · exact hset
      · rw [hs] at hi
        cases hi

/-- Where the configuration is reached, only elements of sets are lost. -/
theorem keeps_iff_of_reached {x z w : Value} (hp : config.reach? path.steps = some x)
    (hxz : x.Keeps z) (h : Rebuilds (unknownAt config) path position z w) :
    x.Keeps w ↔ ¬ position.LosesElement x z := by
  induction x using Value.contentsInduction generalizing path position z w with
  | atom x hx =>
    refine iff_of_true ?_ (fun hl => by cases hl <;> cases hx)
    cases hn : x.isNull with
    | true =>
      rw [Value.eq_null_of_isNull hn]
      exact .null w
    | false =>
      have hbelow := rebuildsBelow_of_reached hp hn h
      rw [hxz.eq_of_atom hx hn] at hbelow
      rw [← ((rebuildsBelow_of_atom_iff hx).mp hbelow).1]
      exact .refl x
  | list xs ih =>
    obtain ⟨zs, rfl⟩ := hxz.exists_list
    obtain ⟨ws, child, rfl, hc, hitems⟩ :=
      rebuildsBelow_of_list_iff.mp (rebuildsBelow_of_reached hp rfl h)
    rw [losesElement_list_iff hc, hitems.keeps_iff (LostItem child xs) hxz ?_]
    · simp only [not_exists, not_and]
    · intro i x z w hx hz hk hr
      refine item_keeps_iff hc hp hx hk hr (fun hreach hr => ?_)
      exact ih x (List.mem_of_getElem? hx) hreach hk hr
  | map es ih =>
    obtain ⟨gs, rfl⟩ := hxz.exists_map
    obtain ⟨fs, child, rfl, hc, hentries⟩ :=
      rebuildsBelow_of_map_iff.mp (rebuildsBelow_of_reached hp rfl h)
    rw [losesElement_map_iff hc,
      hentries.keeps_iff (fun k x z => (child k).position.LosesElement x z) hxz ?_]
    · simp only [not_exists, not_and]
    · intro k x z w hx hz hk hr
      refine ih (k, x) (Keyed.mem_of_get? hx) ?_ hk hr
      rw [Value.reach?_push, hp]
      exact (Position.step?_entryChild hc es k).trans hx

end

/-! ## Creating what is configured -/

namespace Server

/-- The change that creates a resource just as it is configured. -/
def creation (s : PlainSchema) (config : Value) (providerMeta : Described)
    (client : ClientCapabilities) : Change :=
  ⟨⟨config, s⟩, ⟨.null, s⟩, ⟨config, s⟩, providerMeta, client⟩

/-- The configuration with the defaults in it, filled out again, as the second stage meets it. -/
def WithDefaults (s : PlainSchema) (config planned : Value) : Prop :=
  ∃ defaulted, s.applyDefaults config config = .ok defaulted ∧ s.fillAbsent defaulted = .ok planned

/-- Creating what is configured keeps the configuration, unless a default changes an element of
a set in which something is configured that is left to the provider. -/
theorem creation_keeps_configuration_iff (s : PlainSchema) (raw : Value)
    (hraw : raw.isNull = false) (hfit : s.checkShape raw = .ok ()) (providerMeta : Described)
    (client : ClientCapabilities) :
    ∃ config, s.fillAbsent raw = .ok config ∧
      (config.Keeps (draft (creation s config providerMeta client)).1 ↔
        ∀ planned, (draft (creation s config providerMeta client)).2 = none →
          WithDefaults s config planned →
          ¬ (Position.described (.block s.root)).LosesElement config planned) := by
  obtain ⟨config, hfill⟩ := exists_fillAbsent_of_checkShape hfit
  refine ⟨config, hfill, ?_⟩
  have hnull : config.isNull = false := (keeps_of_fillAbsent hfill).isNull_eq_false hraw
  unfold draft creation Described.isNull
  simp only [hnull, Bool.false_eq_true, if_false]
  cases hd : s.applyDefaults config config with
  | error fault => simp [Value.Keeps.refl]
  | ok defaulted =>
    obtain ⟨filled, hf, hwalk⟩ := applyDefaults_eq_ok_iff.mp hd
    rw [fillAbsent_idempotent hfill] at hf
    cases hf
    have hkept : config.Keeps defaulted := (found_root config).keeps_of_defaulting hwalk
    have hdefaulted : defaulted.isNull = false := hkept.isNull_eq_false hnull
    have hmoved : defaulted.same .null = false := by
      cases hs : defaulted.same .null with
      | false => rfl
      | true =>
        rw [Value.isNull_eq_of_same hs] at hdefaulted
        cases hdefaulted
    simp only [hdefaulted, hmoved, Bool.or_self, Bool.false_eq_true, if_false]
    cases hm : s.markUnknowns config defaulted with
    | error fault => simp [hkept]
    | ok marked =>
      obtain ⟨planned, hp, hmark⟩ := markUnknowns_eq_ok_iff.mp hm
      have hroot : config.reach? Path.root.steps = some config := rfl
      have hreached := keeps_iff_of_reached hroot
        (hkept.trans (keeps_of_fillAbsent hp)) hmark
      rw [hreached]
      constructor
      · rintro hlost planned' _ ⟨_, hd', hp'⟩
        rw [hd] at hd'
        cases hd'
        rw [hp] at hp'
        cases hp'
        exact hlost
      · intro hlost
        exact hlost planned rfl ⟨defaulted, hd, hp⟩

/-- A set of rules with a name and a port; the provider may decide both, and ports have a
default. -/
def ruleSchema : PlainSchema :=
  let port : Attribute Unit := Attribute.optionalComputedString.withDefault (.string "80")
  let rules : Attribute Unit :=
    Attribute.ofNested .set [("name", .optionalComputedString), ("port", port)] .optionalOnly
  ⟨0, ⟨[("rules", rules)], [], none⟩⟩

/-- One rule with a name and without a port. -/
def namedRule : Value := .map [("rules", .list [.map [("name", .string "web"), ("port", .null)]])]

theorem creation_keeps_named_rule_iff :
    namedRule.isNull = false ∧ ruleSchema.checkShape namedRule = .ok () ∧
    ∃ config, ruleSchema.fillAbsent namedRule = .ok config ∧
      (config.Keeps (draft (creation ruleSchema config ⟨.null, .empty⟩ .standard)).1 ↔
        ∀ planned, (draft (creation ruleSchema config ⟨.null, .empty⟩ .standard)).2 = none →
          WithDefaults ruleSchema config planned →
          ¬ (Position.described (.block ruleSchema.root)).LosesElement config planned) :=
  ⟨rfl, rfl, creation_keeps_configuration_iff ruleSchema namedRule rfl rfl _ .standard⟩

/-- The default port takes the name of the rule with it. -/
theorem creation_loses_rule_name :
    ruleSchema.checkShape namedRule = .ok () ∧ ruleSchema.fillAbsent namedRule = .ok namedRule ∧
    draft (creation ruleSchema namedRule ⟨.null, .empty⟩ .standard) =
      (.map [("rules", .list [.map [("name", .unknown), ("port", .string "80")]])], none) ∧
    ¬ namedRule.Keeps (draft (creation ruleSchema namedRule ⟨.null, .empty⟩ .standard)).1 := by
  have hdraft : draft (creation ruleSchema namedRule ⟨.null, .empty⟩ .standard) =
      (.map [("rules", .list [.map [("name", .unknown), ("port", .string "80")]])], none) := rfl
  refine ⟨rfl, rfl, hdraft, ?_⟩
  rw [hdraft]
  intro h
  obtain ⟨_, hrules, h⟩ := h.get? (k := "rules") rfl
  cases hrules
  obtain ⟨_, hrule, h⟩ := h.getElem? (i := 0) rfl
  cases hrule
  obtain ⟨_, hname, h⟩ := h.get? (k := "name") rfl
  cases hname
  exact absurd (Value.Keeps.unknown_iff.mp h) (by decide)

end Server

end ProviderKit
