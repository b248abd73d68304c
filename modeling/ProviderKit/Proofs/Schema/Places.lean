import ProviderKit.Proofs.Schema.Ordered

-- Places of a value. A place is told by keys and indexes alone, so it stays the same place when
-- what stands there changes. The path of a place is not: it names an element of a set by the
-- element itself.

namespace ProviderKit

variable {β : Type}

/-! ## Places -/

/-- One step down a value, to the entry under a key or to the item at an index. -/
inductive Branch where
  | entry (k : String)
  | item (i : Nat)
  deriving DecidableEq

namespace Value

/-- What stands right below, under a branch. -/
def part? : Value → Branch → Option Value
  | .map es, .entry k => Keyed.get? es k
  | .list xs, .item i => xs[i]?
  | _, _ => none

/-- What stands at a place. -/
def at? : Value → List Branch → Option Value
  | v, [] => some v
  | v, b :: place => (v.part? b).bind fun x => x.at? place

/-- The value without what stands below: the keys of a map, the length of a list, or a value that
holds nothing. -/
def outline : Value → Value
  | .list xs => .list (xs.map fun _ => .null)
  | .map es => .map (es.map fun e => (e.1, .null))
  | v => v

theorem exists_list_of_outline_eq {u : Value} {ys : List Value}
    (h : u.outline = (list ys).outline) : ∃ xs, u = .list xs ∧ xs.length = ys.length := by
  cases u
  case list xs =>
    rw [outline, outline, list.injEq] at h
    exact ⟨xs, rfl, by simpa using congrArg List.length h⟩
  all_goals cases h

theorem exists_map_of_outline_eq {u : Value} {fs : List (String × Value)}
    (h : u.outline = (map fs).outline) : ∃ es, u = .map es ∧ Keyed.keys es = Keyed.keys fs := by
  cases u
  case map es =>
    rw [outline, outline, map.injEq] at h
    have hkeys := congrArg (List.map Prod.fst) h
    rw [List.map_map, List.map_map] at hkeys
    exact ⟨es, rfl, hkeys⟩
  all_goals cases h

theorem eq_of_outline_eq_atom {u w : Value} (hw : w.isAtom = true) (h : u.outline = w.outline) :
    u = w := by
  cases w <;> cases hw <;> cases u <;> cases h <;> rfl

/-- A step names what a branch leads to. Two kinds of steps name an entry; an item is named by its
index or as the element that stands there. -/
inductive Names (x : Value) : Branch → Step → Prop
  | field (k : String) : Names x (.entry k) (.field k)
  | key (k : String) : Names x (.entry k) (.key k)
  | index (i : Nat) : Names x (.item i) (.index i)
  | element (i : Nat) : Names x (.item i) (.element x)

/-- In a value, steps name a place. -/
def Spells : Value → List Branch → List Step → Prop
  | _, [], steps => steps = []
  | v, b :: place, steps =>
    ∃ x s rest, v.part? b = some x ∧ x.Names b s ∧ x.Spells place rest ∧ steps = s :: rest

theorem part?_of_atom {v : Value} (hv : v.isAtom = true) (b : Branch) : v.part? b = none := by
  cases v <;> cases b <;> first | rfl | cases hv

theorem exists_list_of_part? {v x : Value} {i : Nat} (hx : v.part? (.item i) = some x) :
    ∃ xs, v = .list xs ∧ x ∈ xs := by
  cases v
  case list xs => exact ⟨xs, rfl, List.mem_of_getElem? hx⟩
  all_goals cases hx

theorem exists_map_of_part? {v x : Value} {k : String} (hx : v.part? (.entry k) = some x) :
    ∃ es, v = .map es ∧ Keyed.get? es k = some x := by
  cases v
  case map es => exact ⟨es, rfl, hx⟩
  all_goals cases hx

theorem isKnown_of_part? {v x : Value} {b : Branch} (hx : v.part? b = some x) :
    v.isKnown = true := by
  cases v
  case null | unknown => cases hx
  all_goals rfl

/-- Induction over what stands below, branch by branch. -/
@[elab_as_elim]
theorem partsInduction {motive : Value → Prop} (v : Value)
    (parts : ∀ v, (∀ b x, v.part? b = some x → motive x) → motive v) : motive v := by
  induction v using contentsInduction with
  | atom v hv =>
    refine parts v (fun b x hx => ?_)
    rw [part?_of_atom hv] at hx
    cases hx
  | list xs ih =>
    refine parts _ (fun b x hx => ?_)
    cases b with
    | entry k => cases hx
    | item i => exact ih x (List.mem_of_getElem? hx)
  | map es ih =>
    refine parts _ (fun b x hx => ?_)
    cases b with
    | item i => cases hx
    | entry k => exact ih (k, x) (Keyed.mem_of_get? hx)

theorem Ordered.part {v x : Value} (h : v.Ordered) {b : Branch} (hx : v.part? b = some x) :
    x.Ordered := by
  cases v <;> cases b <;> try cases hx
  · exact h.of_list (List.mem_of_getElem? hx)
  · exact h.of_map (Keyed.mem_of_get? hx)

theorem at?_append (v : Value) (place rest : List Branch) :
    v.at? (place ++ rest) = (v.at? place).bind fun x => x.at? rest := by
  induction place generalizing v with
  | nil => rfl
  | cons b place ih =>
    rw [List.cons_append, at?, at?]
    cases v.part? b with
    | none => rfl
    | some x => exact ih x

/-- Above something known, everything is known. -/
theorem isKnown_of_at? {v x : Value} {place : List Branch} (hx : v.at? place = some x)
    (hk : x.isKnown = true) : v.isKnown = true := by
  cases place with
  | nil =>
    cases hx
    exact hk
  | cons b place =>
    obtain ⟨y, hy, _⟩ := Option.bind_eq_some_iff.mp hx
    exact isKnown_of_part? hy

/-- Where steps are put together, the place that they name is too. -/
theorem exists_of_spells_append {v : Value} {place : List Branch} {ss ts : List Step}
    (h : v.Spells place (ss ++ ts)) :
    ∃ p q x, place = p ++ q ∧ v.Spells p ss ∧ v.at? p = some x ∧ x.Spells q ts := by
  induction ss generalizing v place with
  | nil => exact ⟨[], place, v, rfl, rfl, rfl, h⟩
  | cons s ss ih =>
    cases place with
    | nil => cases h
    | cons b place =>
      obtain ⟨x, _, _, hx, hnames, hspells, hsteps⟩ := h
      cases hsteps
      obtain ⟨p, q, y, rfl, hp, hy, hq⟩ := ih hspells
      refine ⟨b :: p, q, y, rfl, ⟨x, s, ss, hx, hnames, hp, rfl⟩, ?_, hq⟩
      rw [at?, hx]
      exact hy

theorem Ordered.at? {v x : Value} (h : v.Ordered) {place : List Branch}
    (hx : v.at? place = some x) : x.Ordered := by
  induction place generalizing v with
  | nil =>
    cases hx
    exact h
  | cons b place ih =>
    rw [Value.at?] at hx
    obtain ⟨y, hy, hx⟩ := Option.bind_eq_some_iff.mp hx
    exact ih (h.part hy) hx

end Value

/-! ## Positions of places -/

namespace Position

variable {position : Position β} {b : Branch} {x : Value} {c : Child β}

/-- How a position continues under a branch. -/
def child? (position : Position β) (x : Value) : Branch → Option (Child β)
  | .entry k => position.entryChild.map fun child => child k
  | .item i => position.itemChild.map fun child => child i x

/-- A walk steps on by a name of the place that it comes to. -/
theorem names_of_child? (h : position.child? x b = some c) : x.Names b c.step := by
  cases b with
  | entry k =>
    obtain ⟨child, hc, rfl⟩ := Option.map_eq_some_iff.mp h
    rcases entryChild_step hc k with hs | hs <;> rw [hs]
    · exact .field k
    · exact .key k
  | item i =>
    obtain ⟨child, hc, rfl⟩ := Option.map_eq_some_iff.mp h
    rcases itemChild_step hc i x with hs | hs <;> rw [hs]
    · exact .index i
    · exact .element i

theorem leads_of_child? (h : position.child? x b = some c) {m : Node β}
    (hm : c.position = .described m) : ∃ n, position = .described n ∧ n.Leads c.step m := by
  cases b with
  | entry k =>
    obtain ⟨child, hc, rfl⟩ := Option.map_eq_some_iff.mp h
    exact leads_of_entryChild hc hm
  | item i =>
    obtain ⟨child, hc, rfl⟩ := Option.map_eq_some_iff.mp h
    exact leads_of_itemChild hc hm

/-- Whatever is below a position without a node is inside an atomic attribute, as far as a visitor
is told. -/
theorem exists_atomic_of_child? (h : position.child? x b = some c)
    (hposition : ∀ n, position ≠ .described n) : ∃ type, c.position = .atomic type := by
  cases position with
  | described n => exact absurd rfl (hposition n)
  | atomic type =>
    cases b with
    | entry k =>
      cases h
      exact exists_atomicEntry_position type k
    | item i =>
      cases h
      exact exists_atomicItem_position type i x
  | undeclared =>
    cases b with
    | entry k =>
      cases h
      exact exists_atomicEntry_position none k
    | item i =>
      cases h
      exact exists_atomicItem_position none i x

/-- Either the items continue a position alike, or each is named by itself. -/
theorem itemChild_eq_or_step {child : Nat → Value → Child β} (h : position.itemChild = some child)
    (i : Nat) : (∀ x y, child i x = child i y) ∨ ∀ x, (child i x).step = .element x := by
  have hatomic : ∀ type, child = itemChild.atomicItem (β := β) type →
      (∀ x y, child i x = child i y) ∨ ∀ x, (child i x).step = .element x := by
    rintro type rfl
    unfold itemChild.atomicItem
    split <;> simp
  cases position with
  | described n =>
    simp only [itemChild] at h
    cases hv : n.view <;> simp only [hv, Option.some.injEq, reduceCtorEq] at h
    · exact .inl (fun x y => by rw [← h])
    · exact .inr (fun x => by rw [← h])
    · exact hatomic _ h.symm
  | atomic type => exact hatomic _ (Option.some.inj h).symm
  | undeclared => exact hatomic _ (Option.some.inj h).symm

/-- Whatever stands at a place, a position continues there alike; only the step to an element of a
set changes with the element. -/
theorem exists_child?_of_child? (h : position.child? x b = some c) (y : Value) :
    ∃ d, position.child? y b = some d ∧ d.position = c.position ∧
      (d = c ∨ c.step = .element x ∧ d.step = .element y) := by
  cases b with
  | entry k => exact ⟨c, h, rfl, .inl rfl⟩
  | item i =>
    obtain ⟨child, hc, rfl⟩ := Option.map_eq_some_iff.mp h
    refine ⟨child i y, by rw [child?, hc, Option.map_some], itemChild_position hc i i y x, ?_⟩
    rcases itemChild_eq_or_step hc i with hs | hs
    · exact .inl (hs y x)
    · exact .inr ⟨hs x, hs y⟩

/-- A step that leads to a node is the one by which a walk comes to the place that it names. -/
theorem child?_of_leads {n m : Node β} {s : Step} (h : n.Leads s m) (hs : x.Names b s) :
    (described n).child? x b = some ⟨s, .described m⟩ := by
  cases h with
  | member hv hm => cases hs; simp only [child?, entryChild, hv, Option.map_some, hm]
  | entry k hv => cases hs; simp only [child?, entryChild, hv, Option.map_some]
  | item i hv => cases hs; simp only [child?, itemChild, hv, Option.map_some]
  | element y hv => cases hs; simp only [child?, itemChild, hv, Option.map_some]

/-- The position that a walk comes to at a place. -/
def at? : Position β → Value → List Branch → Option (Position β)
  | position, _, [] => some position
  | position, v, b :: place =>
    (v.part? b).bind fun x => (position.child? x b).bind fun c => c.position.at? x place

theorem exists_described_of_at? {v : Value} {place : List Branch} {m : Node β}
    (h : position.at? v place = some (.described m)) : ∃ n, position = .described n := by
  induction place generalizing position v with
  | nil => exact ⟨m, Option.some.inj h⟩
  | cons b place ih =>
    obtain ⟨x, _, h⟩ := Option.bind_eq_some_iff.mp h
    obtain ⟨c, hc, h⟩ := Option.bind_eq_some_iff.mp h
    obtain ⟨k, hk⟩ := ih h
    obtain ⟨n, hn, _⟩ := leads_of_child? hc hk
    exact ⟨n, hn⟩

/-- A walk comes to the nodes that the steps of the schema lead to. -/
theorem at?_eq_described_iff {v : Value} {place : List Branch} {n m : Node β} :
    (described n).at? v place = some (.described m) ↔
      ∃ steps, v.Spells place steps ∧ n.Reaches steps m := by
  induction place generalizing v n with
  | nil =>
    constructor
    · intro h
      cases h
      exact ⟨[], rfl, rfl⟩
    · rintro ⟨_, rfl, rfl⟩
      rfl
  | cons b place ih =>
    constructor
    · intro h
      obtain ⟨x, hx, h⟩ := Option.bind_eq_some_iff.mp h
      obtain ⟨⟨step, next⟩, hc, h⟩ := Option.bind_eq_some_iff.mp h
      obtain ⟨k, rfl⟩ := exists_described_of_at? h
      obtain ⟨_, hn, hleads⟩ := leads_of_child? hc rfl
      cases hn
      obtain ⟨steps, hspells, hreaches⟩ := ih.mp h
      exact ⟨step :: steps, ⟨x, step, steps, hx, names_of_child? hc, hspells, rfl⟩, k, hleads,
        hreaches⟩
    · rintro ⟨_, ⟨x, step, steps, hx, hnames, hspells, rfl⟩, k, hleads, hreaches⟩
      rw [at?, hx, Option.bind_some, child?_of_leads hleads hnames]
      exact ih.mpr ⟨steps, hspells, hreaches⟩

end Position

theorem Schema.at?_eq_described_iff {s : Schema β} {v : Value} {place : List Branch} {n : Node β} :
    (Position.described (.block s.root)).at? v place = some (.described n) ↔
      ∃ path : Path, v.Spells place path.steps ∧ s.nodeAt path = .ok n := by
  rw [Position.at?_eq_described_iff]
  constructor
  · rintro ⟨steps, hspells, hreaches⟩
    exact ⟨⟨steps⟩, hspells, nodeAt_eq_ok_iff.mpr hreaches⟩
  · rintro ⟨path, hspells, hn⟩
    exact ⟨path.steps, hspells, nodeAt_eq_ok_iff.mp hn⟩

/-! ## What is rebuilt, place by place -/

theorem rel_imp {α γ : Type} {R S : α → γ → Prop} (hRS : ∀ a c, R a c → S a c) {o : Option α}
    {p : Option γ} (h : Option.Rel R o p) : Option.Rel S o p := by
  cases h with
  | none => exact .none
  | some h => exact .some (hRS _ _ h)

section

variable {visit : Visit β (Except Fault)} {path : Path} {position : Position β}

/-- Lists are rebuilt item by item. -/
theorem rebuildsItems_iff {child : Nat → Value → Position.Child β} {i : Nat} {xs ys : List Value} :
    RebuildsItems visit path child i xs ys ↔ xs.length = ys.length ∧
      ∀ (j : Nat) x y, xs[j]? = some x → ys[j]? = some y →
        Rebuilds visit (path.push (child (i + j) x).step) (child (i + j) x).position x y := by
  constructor
  · intro h
    refine ⟨h.length_eq, fun j x y hx hy => ?_⟩
    have hrel := h.getElem? j
    rw [hx, hy] at hrel
    cases hrel with
    | some hr => exact hr
  · rintro ⟨hlength, h⟩
    induction ys generalizing xs i with
    | nil => exact rebuildsItems_nil_iff.mpr (List.length_eq_zero_iff.mp hlength)
    | cons y ys ih =>
      obtain ⟨x, xs, rfl⟩ := List.exists_cons_of_length_eq_add_one hlength
      have hrest : xs.length = ys.length := by simpa using hlength
      refine rebuildsItems_cons_iff.mpr ⟨x, xs, rfl, h 0 x y rfl rfl, ih hrest ?_⟩
      intro j x' y' hx' hy'
      rw [Nat.add_assoc, Nat.add_comm 1 j]
      exact h (j + 1) x' y' hx' hy'

theorem rebuildsItems_self_iff {child : Nat → Value → Position.Child β} {i : Nat}
    {xs : List Value} : RebuildsItems visit path child i xs xs ↔ ∀ (j : Nat) x, xs[j]? = some x →
      Rebuilds visit (path.push (child (i + j) x).step) (child (i + j) x).position x x := by
  rw [rebuildsItems_iff]
  constructor
  · rintro ⟨_, h⟩ j x hx
    exact h j x x hx hx
  · intro h
    refine ⟨rfl, fun j x y hx hy => ?_⟩
    rw [hx] at hy
    cases hy
    exact h j x hx

/-- Maps with the same keys are rebuilt entry by entry. -/
theorem rebuildsEntries_of_mem {child : String → Position.Child β} {es fs : Keyed Value}
    (hkeys : Keyed.keys es = Keyed.keys fs)
    (h : ∀ k x y, (k, x) ∈ es → (k, y) ∈ fs →
      Rebuilds visit (path.push (child k).step) (child k).position x y) :
    RebuildsEntries visit path child es fs := by
  induction fs generalizing es with
  | nil => exact rebuildsEntries_nil_iff.mpr (List.map_eq_nil_iff.mp hkeys)
  | cons f fs ih =>
    obtain ⟨_, y⟩ := f
    obtain ⟨⟨k, x⟩, es, rfl, rfl, hrest⟩ := List.map_eq_cons_iff.mp hkeys
    refine rebuildsEntries_cons_iff.mpr
      ⟨x, es, rfl, h k x y List.mem_cons_self List.mem_cons_self, ih hrest ?_⟩
    intro l x' y' hx' hy'
    exact h l x' y' (List.mem_cons_of_mem _ hx') (List.mem_cons_of_mem _ hy')

/-- At every place right below, what stood there is rebuilt as what stands there now. -/
theorem RebuildsBelow.part? {u w : Value} (h : RebuildsBelow visit path position u w) (b : Branch) :
    Option.Rel (fun x y => ∃ c, position.child? x b = some c ∧
      Rebuilds visit (path.push c.step) c.position x y) (u.part? b) (w.part? b) := by
  cases w
  case list ys =>
    obtain ⟨xs, child, rfl, hc, hitems⟩ := rebuildsBelow_list_iff.mp h
    cases b with
    | entry k => exact .none
    | item i =>
      refine rel_imp (fun x y hxy => ?_) (hitems.getElem? i)
      rw [Nat.zero_add] at hxy
      exact ⟨child i x, by rw [Position.child?, hc, Option.map_some], hxy⟩
  case map fs =>
    obtain ⟨es, child, rfl, hc, hentries⟩ := rebuildsBelow_map_iff.mp h
    cases b with
    | item i => exact .none
    | entry k =>
      refine rel_imp (fun x y hxy => ?_) (hentries.get? k)
      exact ⟨child k, by rw [Position.child?, hc, Option.map_some], hxy⟩
  all_goals
    obtain ⟨rfl, _⟩ := (rebuildsBelow_atom_iff rfl).mp h
    rw [Value.part?_of_atom rfl b]
    exact .none

/-- Below a value, a walk changes no key and no length. -/
theorem RebuildsBelow.outline_eq {u w : Value} (h : RebuildsBelow visit path position u w) :
    w.outline = u.outline := by
  cases w
  case list ys =>
    obtain ⟨xs, child, rfl, hc, hitems⟩ := rebuildsBelow_list_iff.mp h
    simp [Value.outline, List.map_const', hitems.length_eq]
  case map fs =>
    obtain ⟨es, child, rfl, hc, hentries⟩ := rebuildsBelow_map_iff.mp h
    have hkeys : ∀ gs : List (String × Value),
        gs.map (fun e => (e.1, Value.null)) = (Keyed.keys gs).map fun k => (k, .null) :=
      fun gs => by rw [Keyed.keys, List.map_map]; rfl
    rw [Value.outline, Value.outline, hkeys, hkeys, hentries.keys_eq]
  all_goals
    obtain ⟨rfl, _⟩ := (rebuildsBelow_atom_iff rfl).mp h
    rfl

/-- Below a value, each part is rebuilt by itself, so a walk from another value goes the same way
where its parts are rebuilt as the same. -/
theorem RebuildsBelow.of_parts {visit' : Visit β (Except Fault)} {path' : Path} {t u w : Value}
    (h : RebuildsBelow visit' path' position t w) (hu : u.Ordered) (hw : w.Ordered)
    (houtline : w.outline = u.outline)
    (hparts : ∀ b x y, u.part? b = some x → w.part? b = some y → ∃ c,
      position.child? x b = some c ∧ Rebuilds visit (path.push c.step) c.position x y) :
    RebuildsBelow visit path position u w := by
  cases w
  case list ys =>
    obtain ⟨_, child, _, hc, _⟩ := rebuildsBelow_list_iff.mp h
    obtain ⟨xs, rfl, hlength⟩ := Value.exists_list_of_outline_eq houtline.symm
    refine rebuildsBelow_list_iff.mpr ⟨xs, child, rfl, hc, rebuildsItems_iff.mpr ⟨hlength, ?_⟩⟩
    intro i x y hx hy
    obtain ⟨c, hchild, hr⟩ := hparts (.item i) x y hx hy
    rw [Position.child?, hc, Option.map_some] at hchild
    cases hchild
    rw [Nat.zero_add]
    exact hr
  case map fs =>
    obtain ⟨_, child, _, hc, _⟩ := rebuildsBelow_map_iff.mp h
    obtain ⟨es, rfl, hkeys⟩ := Value.exists_map_of_outline_eq houtline.symm
    refine rebuildsBelow_map_iff.mpr ⟨es, child, rfl, hc, rebuildsEntries_of_mem hkeys ?_⟩
    intro k x y hx hy
    obtain ⟨c, hchild, hr⟩ := hparts (.entry k) x y (Keyed.get?_of_mem hu.ascending hx)
      (Keyed.get?_of_mem hw.ascending hy)
    rw [Position.child?, hc, Option.map_some] at hchild
    cases hchild
    exact hr
  all_goals
    obtain ⟨_, hdemand⟩ := (rebuildsBelow_atom_iff rfl).mp h
    exact (rebuildsBelow_atom_iff rfl).mpr ⟨Value.eq_of_outline_eq_atom rfl houtline.symm, hdemand⟩

/-- What was rebuilt once stays as it is below, if it does so at every place right below. -/
theorem RebuildsBelow.again {visit' : Visit β (Except Fault)} {path' : Path} {u w : Value}
    (h : RebuildsBelow visit' path' position u w) (hw : w.Ordered)
    (hparts : ∀ b x, w.part? b = some x → ∃ c, position.child? x b = some c ∧
      Rebuilds visit (path.push c.step) c.position x x) :
    RebuildsBelow visit path position w w := by
  refine h.of_parts hw hw rfl fun b x y hx hy => ?_
  rw [hx] at hy
  cases hy
  exact hparts b x hx

end

end ProviderKit
