import ProviderKit.Proofs.Schema.Every

-- Walks whose visitor goes by the node alone, whatever the path. What they make of an
-- attribute is a function of its value, by recursion on what is nested in the attribute.

namespace ProviderKit

variable {β : Type}

/-! ## The function -/

namespace Value

/-- Change every item of a list; anything else stays. -/
def mapItems (F : Value → Value) : Value → Value
  | .list xs => .list (xs.map F)
  | v => v

/-- Change every entry of a map; anything else stays. -/
def mapEntries (F : String → Value → Value) : Value → Value
  | .map es => .map (es.map fun e => (e.1, F e.1 e.2))
  | v => v

theorem mapItems_of_atom (F : Value → Value) {v : Value} (h : v.isAtom = true) :
    v.mapItems F = v := by
  cases v
  case list xs => cases h
  all_goals rfl

theorem mapEntries_of_atom (F : String → Value → Value) {v : Value} (h : v.isAtom = true) :
    v.mapEntries F = v := by
  cases v
  case map es => cases h
  all_goals rfl

end Value

section

variable (f : Node β → Value → Value)

mutual
/-- The value of an attribute after a walk from the top down: the attribute is rewritten, then
what is nested in it. -/
def Attribute.rewritten : Attribute β → Value → Value
  | ⟨type, flags, description, nested, default, behaviour⟩, v =>
    rewrittenBelow nested (f (.attr ⟨type, flags, description, nested, default, behaviour⟩) v)

def rewrittenBelow : Option (NestedAttributes β) → Value → Value
  | none, v => v
  | some ⟨mode, attributes⟩, v =>
    let object (x : Value) : Value :=
      (f (.nestedObject attributes) x).mapEntries (rewrittenEntry attributes)
    match mode with
    | .single => v.mapEntries (rewrittenEntry attributes)
    | .list => v.mapItems object
    | .set => v.mapItems object
    | .map => v.mapEntries fun _ x => object x

/-- An entry of an object; what the attributes do not name stays. -/
def rewrittenEntry : List (String × Attribute β) → String → Value → Value
  | [], _, v => v
  | (name, a) :: rest, k, v => if name = k then a.rewritten v else rewrittenEntry rest k v
end

/-- One object of a nested collection. -/
def rewrittenObject (attributes : List (String × Attribute β)) (v : Value) : Value :=
  (f (.nestedObject attributes) v).mapEntries (rewrittenEntry f attributes)

end

variable {f : Node β → Value → Value}

theorem Attribute.rewritten_eq (a : Attribute β) (v : Value) :
    a.rewritten f v = rewrittenBelow f a.nested (f (.attr a) v) := by
  cases a
  rw [rewritten]

theorem rewrittenEntry_eq (attributes : List (String × Attribute β)) (k : String) (v : Value) :
    rewrittenEntry f attributes k v =
      ((Keyed.get? attributes k).map fun a => a.rewritten f v).getD v := by
  induction attributes with
  | nil => rfl
  | cons e rest ih =>
    obtain ⟨name, a⟩ := e
    rw [rewrittenEntry, Keyed.get?_cons, ih]
    by_cases hk : name = k
    · rw [if_pos hk, if_pos hk]
      rfl
    · rw [if_neg hk, if_neg hk]

theorem rewrittenBelow_of_atom (nested : Option (NestedAttributes β)) {v : Value}
    (h : v.isAtom = true) : rewrittenBelow f nested v = v := by
  cases nested with
  | none => rw [rewrittenBelow]
  | some n =>
    obtain ⟨mode, attributes⟩ := n
    cases mode <;> simp only [rewrittenBelow]
    · exact v.mapEntries_of_atom _ h
    · exact v.mapItems_of_atom _ h
    · exact v.mapItems_of_atom _ h
    · exact v.mapEntries_of_atom _ h

/-! ## Where nothing is rewritten -/

section

variable {p : Node β → Bool} (hattr : ∀ a v, p (.attr a) = true → f (.attr a) v = v)

include hattr

theorem mapEntries_rewrittenEntry {attributes : List (String × Attribute β)}
    (h : attributesEvery p attributes = true) {es : List (String × Value)}
    (ih : ∀ e ∈ es, ∀ nested, nestedEvery p nested = true → rewrittenBelow f nested e.2 = e.2) :
    (Value.map es).mapEntries (rewrittenEntry f attributes) = .map es := by
  have hes : ∀ e ∈ es, (e.1, rewrittenEntry f attributes e.1 e.2) = id e := by
    intro e he
    rw [rewrittenEntry_eq]
    cases ha : Keyed.get? attributes e.1 with
    | none => rfl
    | some a =>
      obtain ⟨hp, hnested⟩ := a.every_iff.mp (attributesEvery_iff.mp h _ (Keyed.mem_of_get? ha))
      rw [Option.map_some, Option.getD_some, a.rewritten_eq, hattr a _ hp, ih e he _ hnested]
      rfl
  rw [Value.mapEntries, List.map_congr_left hes, List.map_id]

/-- Nothing changes below an attribute in which no attribute is rewritten. -/
theorem rewrittenBelow_eq_self
    (hobject : ∀ attributes v, f (.nestedObject attributes) v = v)
    {nested : Option (NestedAttributes β)} (h : nestedEvery p nested = true) (v : Value) :
    rewrittenBelow f nested v = v := by
  -- An object is rewritten one level further down, so the claim goes along with its nesting.
  suffices hv : (∀ nested, nestedEvery p nested = true → rewrittenBelow f nested v = v) ∧
      ∀ attributes, attributesEvery p attributes = true →
        v.mapEntries (rewrittenEntry f attributes) = v from hv.1 nested h
  clear h
  induction v using Value.contentsInduction with
  | atom v hv =>
    exact ⟨fun n _ => rewrittenBelow_of_atom n hv, fun _ _ => v.mapEntries_of_atom _ hv⟩
  | list xs ih =>
    refine ⟨fun nested h => ?_, fun _ _ => rfl⟩
    cases nested with
    | none => rw [rewrittenBelow]
    | some n =>
      obtain ⟨mode, attributes⟩ := n
      obtain ⟨_, h⟩ := Bool.and_eq_true_iff.mp h
      have hxs : ∀ x ∈ xs,
          (f (.nestedObject attributes) x).mapEntries (rewrittenEntry f attributes) = id x := by
        intro x hx
        rw [hobject, (ih x hx).2 attributes h]
        rfl
      cases mode <;> simp only [rewrittenBelow]
      · rfl
      · rw [Value.mapItems, List.map_congr_left hxs, List.map_id]
      · rw [Value.mapItems, List.map_congr_left hxs, List.map_id]
      · rfl
  | map es ih =>
    have hentries : ∀ attributes, attributesEvery p attributes = true →
        (Value.map es).mapEntries (rewrittenEntry f attributes) = .map es :=
      fun attributes h => mapEntries_rewrittenEntry hattr h (fun e he => (ih e he).1)
    refine ⟨fun nested h => ?_, hentries⟩
    cases nested with
    | none => rw [rewrittenBelow]
    | some n =>
      obtain ⟨mode, attributes⟩ := n
      obtain ⟨_, h⟩ := Bool.and_eq_true_iff.mp h
      have hes : ∀ e ∈ es, (e.1,
          (f (.nestedObject attributes) e.2).mapEntries (rewrittenEntry f attributes)) = id e := by
        intro e he
        rw [hobject, (ih e he).2 attributes h]
        rfl
      cases mode <;> simp only [rewrittenBelow]
      · exact hentries attributes (Bool.and_eq_true_iff.mp h).2
      · rfl
      · rfl
      · rw [Value.mapEntries, List.map_congr_left hes, List.map_id]

end

/-! ## The walk is the function -/

/-- On the paths that `Q` picks, and on all that are longer, the visitor goes by the node alone;
where there is none it changes nothing. -/
structure GoesByNode (visit : Visit β (Except Fault)) (Q : Path → Prop)
    (f : Node β → Value → Value) : Prop where
  push : ∀ {path} s, Q path → Q (path.push s)
  node : ∀ {path n v u}, Q path → visit path (.ok n) v = .ok u → u = f n v
  rest : ∀ {path fault v u}, visit path (.error fault) v = .ok u → u = v

section

variable {visit : Visit β (Except Fault)} {Q : Path → Prop} {path : Path}

theorem GoesByNode.eq_of_undescribed (hf : GoesByNode visit Q f) {position : Position β}
    (hp : ∀ n, position ≠ .described n) {v w : Value} (h : Rebuilds visit path position v w) :
    w = v := by
  refine h.eq_of_unchanged Position.hereditary_undescribed ?_ hp
  intro path position v u hp hu
  cases position with
  | described n => exact absurd rfl (hp n)
  | atomic type => exact hf.rest hu
  | undeclared => exact hf.rest hu

/-- What the theorem below says of one outcome, at an attribute and at a nested object. -/
structure IsRewritten (visit : Visit β (Except Fault)) (Q : Path → Prop)
    (f : Node β → Value → Value) (w : Value) : Prop where
  attr : ∀ {path a v}, Q path → Rebuilds visit path (.described (.attr a)) v w →
    w = a.rewritten f v
  object : ∀ {path attributes v}, Q path →
    Rebuilds visit path (.described (.nestedObject attributes)) v w →
    w = rewrittenObject f attributes v

/-- The entries of an object are rewritten as its attributes are. -/
theorem GoesByNode.entries (hf : GoesByNode visit Q f) {n : Node β}
    {attributes : List (String × Attribute β)} (hv : n.view = .object attributes [])
    (hQ : Q path) {u : Value} {fs : List (String × Value)}
    (h : RebuildsBelow visit path (.described n) u (.map fs))
    (ih : ∀ e ∈ fs, IsRewritten visit Q f e.2) :
    .map fs = u.mapEntries (rewrittenEntry f attributes) := by
  obtain ⟨es, child, rfl, hc, hentries⟩ := rebuildsBelow_map_iff.mp h
  rw [Value.mapEntries, ← hentries.eq_map]
  intro e he x hx
  rw [rewrittenEntry_eq]
  simp only [Position.entryChild, hv, Option.some.injEq] at hc
  subst hc
  simp only [Node.member?, Keyed.get?_nil, Option.map_none] at hx
  cases ha : Keyed.get? attributes e.1 with
  | some a =>
    rw [ha] at hx
    exact (ih e he).attr (hf.push _ hQ) hx
  | none =>
    rw [ha] at hx
    exact hf.eq_of_undescribed (by simp) hx

theorem GoesByNode.below_atomic (hf : GoesByNode visit Q f) {n : Node β} {type : AttributeType}
    (hv : n.view = .atomic type) {u w : Value}
    (h : RebuildsBelow visit path (.described n) u w) : w = u := by
  cases w
  case list ys =>
    obtain ⟨xs, child, rfl, hc, hitems⟩ := rebuildsBelow_list_iff.mp h
    rw [hitems.eq_map (F := id), List.map_id]
    refine fun y _ j x hx => hf.eq_of_undescribed (fun m hm => ?_) hx
    obtain ⟨_, hn, hl⟩ := Position.leads_of_itemChild hc hm
    cases hn
    exact Node.not_leads_of_atomic hv hl
  case map fs =>
    obtain ⟨es, child, rfl, hc, hentries⟩ := rebuildsBelow_map_iff.mp h
    rw [hentries.eq_map (F := fun _ x => x), List.map_id']
    refine fun e _ x hx => hf.eq_of_undescribed (fun m hm => ?_) hx
    obtain ⟨_, hn, hl⟩ := Position.leads_of_entryChild hc hm
    cases hn
    exact Node.not_leads_of_atomic hv hl
  all_goals exact ((rebuildsBelow_atom_iff rfl).mp h).1.symm

theorem GoesByNode.items (hf : GoesByNode visit Q f) {n : Node β}
    {attributes : List (String × Attribute β)}
    (hv : n.view = .list (.nestedObject attributes) ∨ n.view = .set (.nestedObject attributes))
    (hQ : Q path) {u : Value} {ys : List Value}
    (h : RebuildsBelow visit path (.described n) u (.list ys))
    (ih : ∀ y ∈ ys, IsRewritten visit Q f y) :
    .list ys = u.mapItems (rewrittenObject f attributes) := by
  obtain ⟨xs, child, rfl, hc, hitems⟩ := rebuildsBelow_list_iff.mp h
  have hchild : ∀ i x, (child i x).position = .described (.nestedObject attributes) := by
    intro i x
    simp only [Position.itemChild] at hc
    rcases hv with hv | hv <;> simp only [hv, Option.some.injEq] at hc <;> subst hc <;> rfl
  rw [Value.mapItems, ← hitems.eq_map]
  intro y hy j x hx
  rw [hchild] at hx
  exact (ih y hy).object (hf.push _ hQ) hx

theorem GoesByNode.keyed (hf : GoesByNode visit Q f) {n : Node β}
    {attributes : List (String × Attribute β)} (hv : n.view = .map (.nestedObject attributes))
    (hQ : Q path) {u : Value} {fs : List (String × Value)}
    (h : RebuildsBelow visit path (.described n) u (.map fs))
    (ih : ∀ e ∈ fs, IsRewritten visit Q f e.2) :
    .map fs = u.mapEntries fun _ x => rewrittenObject f attributes x := by
  obtain ⟨es, child, rfl, hc, hentries⟩ := rebuildsBelow_map_iff.mp h
  simp only [Position.entryChild, hv, Option.some.injEq] at hc
  subst hc
  rw [Value.mapEntries, ← hentries.eq_map (F := fun _ x => rewrittenObject f attributes x)]
  intro e he x hx
  exact (ih e he).object (hf.push _ hQ) hx

theorem view_of_nested {a : Attribute β} {mode : NestingMode}
    {attributes : List (String × Attribute β)} (hn : a.nested = some ⟨mode, attributes⟩) :
    (Node.attr a).view = Node.collected mode attributes [] (.nestedObject attributes) := by
  rw [Node.view, hn]

/-- What such a walk makes of an attribute is a function of its value. -/
theorem GoesByNode.isRewritten (hf : GoesByNode visit Q f) (w : Value) :
    IsRewritten visit Q f w := by
  induction w using Value.contentsInduction with
  | atom w hw =>
    refine ⟨?_, ?_⟩
    · rintro path a v hQ ⟨u, hu, hbelow⟩
      rw [a.rewritten_eq, ← hf.node hQ hu, ((rebuildsBelow_atom_iff hw).mp hbelow).1,
        rewrittenBelow_of_atom _ hw]
    · rintro path attributes v hQ ⟨u, hu, hbelow⟩
      rw [rewrittenObject, ← hf.node hQ hu, ((rebuildsBelow_atom_iff hw).mp hbelow).1,
        w.mapEntries_of_atom _ hw]
  | list ys ih =>
    refine ⟨?_, ?_⟩
    · rintro path a v hQ ⟨u, hu, hbelow⟩
      rw [a.rewritten_eq, ← hf.node hQ hu]
      cases hn : a.nested with
      | none =>
        rw [rewrittenBelow]
        exact hf.below_atomic (by rw [Node.view, hn]) hbelow
      | some nested =>
        obtain ⟨mode, attributes⟩ := nested
        have hv := view_of_nested hn
        obtain ⟨_, child, _, hc, _⟩ := rebuildsBelow_list_iff.mp hbelow
        cases mode <;> simp only [rewrittenBelow]
        · simp [Position.itemChild, hv, Node.collected] at hc
        · exact hf.items (.inl hv) hQ hbelow ih
        · exact hf.items (.inr hv) hQ hbelow ih
        · simp [Position.itemChild, hv, Node.collected] at hc
    · rintro path attributes v hQ ⟨u, hu, hbelow⟩
      obtain ⟨_, child, _, hc, _⟩ := rebuildsBelow_list_iff.mp hbelow
      simp [Position.itemChild, Node.view] at hc
  | map fs ih =>
    refine ⟨?_, ?_⟩
    · rintro path a v hQ ⟨u, hu, hbelow⟩
      rw [a.rewritten_eq, ← hf.node hQ hu]
      cases hn : a.nested with
      | none =>
        rw [rewrittenBelow]
        exact hf.below_atomic (by rw [Node.view, hn]) hbelow
      | some nested =>
        obtain ⟨mode, attributes⟩ := nested
        have hv := view_of_nested hn
        obtain ⟨_, child, _, hc, _⟩ := rebuildsBelow_map_iff.mp hbelow
        cases mode <;> simp only [rewrittenBelow]
        · exact hf.entries hv hQ hbelow ih
        · simp [Position.entryChild, hv, Node.collected] at hc
        · simp [Position.entryChild, hv, Node.collected] at hc
        · exact hf.keyed hv hQ hbelow ih
    · rintro path attributes v hQ ⟨u, hu, hbelow⟩
      rw [rewrittenObject, ← hf.node hQ hu]
      exact hf.entries rfl hQ hbelow ih

theorem GoesByNode.eq_rewritten (hf : GoesByNode visit Q f) {a : Attribute β} {v w : Value}
    (hQ : Q path) (h : Rebuilds visit path (.described (.attr a)) v w) : w = a.rewritten f v :=
  (hf.isRewritten w).attr hQ h

end

end ProviderKit
