import ProviderKit.Proofs.Schema.Rebuilds
import ProviderKit.Proofs.Schema.Leads

-- What was rebuilt, place by place: the items of a list at their indexes, the entries of a
-- map under their keys. What was rebuilt once has the shape of its schema, so a walk that
-- changes nothing leaves it as it is.

namespace ProviderKit

variable {β : Type} {visit : Visit β (Except Fault)} {path : Path} {position : Position β}

/-! ## Steps to the positions below -/

namespace Position

theorem step?_entryChild {child : String → Child β} (h : position.entryChild = some child)
    (es : List (String × Value)) (k : String) :
    (Value.map es).step? (child k).step = Keyed.get? es k := by
  have hatomic : ∀ type, child = entryChild.atomicEntry (β := β) type →
      (Value.map es).step? (child k).step = Keyed.get? es k := by
    rintro type rfl
    unfold entryChild.atomicEntry
    split <;> rfl
  cases position with
  | described n =>
    simp only [entryChild] at h
    cases hv : n.view <;> simp only [hv, Option.some.injEq, reduceCtorEq] at h
    · subst h
      dsimp only
      split <;> rfl
    · subst h
      rfl
    · exact hatomic _ h.symm
  | atomic type => exact hatomic _ (Option.some.inj h).symm
  | undeclared => exact hatomic _ (Option.some.inj h).symm

/-- Items of a list are named by their index, those of a set by their value. -/
theorem itemChild_step {child : Nat → Value → Child β} (h : position.itemChild = some child)
    (i : Nat) (x : Value) : (child i x).step = .index i ∨ (child i x).step = .element x := by
  have hatomic : ∀ type, child = itemChild.atomicItem (β := β) type →
      (child i x).step = .index i ∨ (child i x).step = .element x := by
    rintro type rfl
    unfold itemChild.atomicItem
    split <;> simp
  cases position with
  | described n =>
    simp only [itemChild] at h
    cases hv : n.view <;> simp only [hv, Option.some.injEq, reduceCtorEq] at h
    · exact .inl (by rw [← h])
    · exact .inr (by rw [← h])
    · exact hatomic _ h.symm
  | atomic type => exact hatomic _ (Option.some.inj h).symm
  | undeclared => exact hatomic _ (Option.some.inj h).symm

/-- Entries are named by their key, as fields of an object or as keys of a map. -/
theorem entryChild_step {child : String → Child β}
    (h : position.entryChild = some child) (k : String) :
    (child k).step = .field k ∨ (child k).step = .key k := by
  have hatomic : ∀ type, child = entryChild.atomicEntry (β := β) type →
      (child k).step = .field k ∨ (child k).step = .key k := by
    rintro type rfl
    unfold entryChild.atomicEntry
    split <;> simp
  cases position with
  | described n =>
    simp only [entryChild] at h
    cases hv : n.view <;> simp only [hv, Option.some.injEq, reduceCtorEq] at h
    · subst h
      dsimp only
      split <;> simp
    · exact .inr (by rw [← h])
    · exact hatomic _ h.symm
  | atomic type => exact hatomic _ (Option.some.inj h).symm
  | undeclared => exact hatomic _ (Option.some.inj h).symm

/-- What the schema knows of an item is the same for all items. -/
theorem itemChild_position {child : Nat → Value → Child β} (h : position.itemChild = some child)
    (i j : Nat) (x y : Value) : (child i x).position = (child j y).position := by
  have hatomic : ∀ type, child = itemChild.atomicItem (β := β) type →
      (child i x).position = (child j y).position := by
    rintro type rfl
    unfold itemChild.atomicItem
    split <;> rfl
  cases position with
  | described n =>
    simp only [itemChild] at h
    cases hv : n.view <;> simp only [hv, Option.some.injEq, reduceCtorEq] at h
    · rw [← h]
    · rw [← h]
    · exact hatomic _ h.symm
  | atomic type => exact hatomic _ (Option.some.inj h).symm
  | undeclared => exact hatomic _ (Option.some.inj h).symm

/-- A property of positions that passes on to the positions below. -/
structure Hereditary (I : Position β → Prop) : Prop where
  entry : ∀ {position child}, I position → position.entryChild = some child →
    ∀ k, I (child k).position
  item : ∀ {position child}, I position → position.itemChild = some child →
    ∀ i x, I (child i x).position

/-- A walk that leaves the described part of a schema does not come back. -/
theorem hereditary_undescribed :
    Hereditary (fun position : Position β => ∀ n, position ≠ .described n) := by
  refine ⟨?_, ?_⟩
  · intro position child hp hc k m hm
    obtain ⟨n, hn, _⟩ := leads_of_entryChild hc hm
    exact hp n hn
  · intro position child hp hc i x m hm
    obtain ⟨n, hn, _⟩ := leads_of_itemChild hc hm
    exact hp n hn

end Position

/-! ## Items and entries -/

theorem RebuildsItems.getElem? {child : Nat → Value → Position.Child β} {i : Nat}
    {xs ys : List Value} (h : RebuildsItems visit path child i xs ys) (j : Nat) :
    Option.Rel (fun x y => Rebuilds visit (path.push (child (i + j) x).step)
      (child (i + j) x).position x y) xs[j]? ys[j]? := by
  induction ys generalizing xs i j with
  | nil =>
    rw [rebuildsItems_nil_iff.mp h]
    exact .none
  | cons y ys ih =>
    obtain ⟨x, rest, rfl, hx, hrest⟩ := rebuildsItems_cons_iff.mp h
    cases j with
    | zero => exact .some hx
    | succ j =>
      have := ih hrest j
      rw [Nat.add_assoc, Nat.add_comm 1 j] at this
      exact this

theorem RebuildsItems.length_eq {child : Nat → Value → Position.Child β} {i : Nat}
    {xs ys : List Value} (h : RebuildsItems visit path child i xs ys) : xs.length = ys.length := by
  induction ys generalizing xs i with
  | nil => rw [rebuildsItems_nil_iff.mp h]
  | cons y ys ih =>
    obtain ⟨x, rest, rfl, _, hrest⟩ := rebuildsItems_cons_iff.mp h
    simp [ih hrest]

theorem RebuildsEntries.get? {child : String → Position.Child β} {es fs : List (String × Value)}
    (h : RebuildsEntries visit path child es fs) (k : String) :
    Option.Rel (fun x y => Rebuilds visit (path.push (child k).step) (child k).position x y)
      (Keyed.get? es k) (Keyed.get? fs k) := by
  induction fs generalizing es with
  | nil =>
    rw [rebuildsEntries_nil_iff.mp h]
    exact .none
  | cons f fs ih =>
    obtain ⟨l, y⟩ := f
    obtain ⟨x, rest, rfl, hx, hrest⟩ := rebuildsEntries_cons_iff.mp h
    rw [Keyed.get?_cons, Keyed.get?_cons]
    by_cases hl : l = k
    · rw [if_pos hl, if_pos hl]
      exact .some (hl ▸ hx)
    · rw [if_neg hl, if_neg hl]
      exact ih hrest

theorem RebuildsEntries.keys_eq {child : String → Position.Child β} {es fs : List (String × Value)}
    (h : RebuildsEntries visit path child es fs) : Keyed.keys es = Keyed.keys fs := by
  induction fs generalizing es with
  | nil => rw [rebuildsEntries_nil_iff.mp h]
  | cons f fs ih =>
    obtain ⟨l, y⟩ := f
    obtain ⟨x, rest, rfl, _, hrest⟩ := rebuildsEntries_cons_iff.mp h
    have := ih hrest
    simp only [Keyed.keys] at this
    simp [Keyed.keys, this]

/-! ## Walks that succeed -/

theorem exists_rebuildsItems {child : Nat → Value → Position.Child β} {xs : List Value}
    (h : ∀ x ∈ xs, ∀ i, ∃ y, Rebuilds visit (path.push (child i x).step) (child i x).position x y)
    (i : Nat) : ∃ ys, RebuildsItems visit path child i xs ys := by
  induction xs generalizing i with
  | nil => exact ⟨[], rebuildsItems_nil_iff.mpr rfl⟩
  | cons x xs ih =>
    obtain ⟨y, hy⟩ := h x List.mem_cons_self i
    obtain ⟨ys, hys⟩ := ih (fun z hz => h z (List.mem_cons_of_mem _ hz)) (i + 1)
    exact ⟨y :: ys, rebuildsItems_cons_iff.mpr ⟨x, xs, rfl, hy, hys⟩⟩

theorem exists_rebuildsEntries {child : String → Position.Child β} {es : List (String × Value)}
    (h : ∀ e ∈ es, ∃ y,
      Rebuilds visit (path.push (child e.1).step) (child e.1).position e.2 y) :
    ∃ fs, RebuildsEntries visit path child es fs := by
  induction es with
  | nil => exact ⟨[], rebuildsEntries_nil_iff.mpr rfl⟩
  | cons e es ih =>
    obtain ⟨k, x⟩ := e
    obtain ⟨y, hy⟩ := h (k, x) List.mem_cons_self
    obtain ⟨fs, hfs⟩ := ih (fun e he => h e (List.mem_cons_of_mem _ he))
    exact ⟨(k, y) :: fs, rebuildsEntries_cons_iff.mpr ⟨x, es, rfl, hy, hfs⟩⟩

theorem RebuildsItems.exists_of_mem {child : Nat → Value → Position.Child β} {i : Nat}
    {xs ys : List Value} (h : RebuildsItems visit path child i xs ys) {x : Value} (hx : x ∈ xs) :
    ∃ j y, Rebuilds visit (path.push (child j x).step) (child j x).position x y := by
  obtain ⟨j, hj⟩ := List.getElem?_of_mem hx
  have hrel := h.getElem? j
  rw [hj] at hrel
  obtain ⟨y, _, hy⟩ := exists_of_rel_some_left hrel
  exact ⟨i + j, y, hy⟩

theorem RebuildsEntries.exists_of_mem {child : String → Position.Child β}
    {es fs : List (String × Value)} (h : RebuildsEntries visit path child es fs)
    {e : String × Value} (he : e ∈ es) :
    ∃ y, Rebuilds visit (path.push (child e.1).step) (child e.1).position e.2 y := by
  induction fs generalizing es with
  | nil => rw [rebuildsEntries_nil_iff.mp h] at he; cases he
  | cons f fs ih =>
    obtain ⟨k, y⟩ := f
    obtain ⟨x, rest, rfl, hx, hrest⟩ := rebuildsEntries_cons_iff.mp h
    rcases List.mem_cons.mp he with rfl | he
    · exact ⟨y, hx⟩
    · exact ih hrest he

/-! ## Walks that change something -/

/-- Where two lists differ, one item differs. -/
theorem RebuildsItems.exists_of_ne {child : Nat → Value → Position.Child β} {i : Nat}
    {xs ys : List Value} (h : RebuildsItems visit path child i xs ys) (hne : ys ≠ xs) :
    ∃ (j : Nat) (x y : Value), xs[j]? = some x ∧ y ≠ x ∧
      Rebuilds visit (path.push (child (i + j) x).step) (child (i + j) x).position x y := by
  induction ys generalizing xs i with
  | nil => exact absurd (rebuildsItems_nil_iff.mp h).symm hne
  | cons y ys ih =>
    obtain ⟨x, rest, rfl, hx, hrest⟩ := rebuildsItems_cons_iff.mp h
    by_cases hy : y = x
    · have hne : ys ≠ rest := fun he => hne (by rw [hy, he])
      obtain ⟨j, x', y', hj, hne', hr⟩ := ih hrest hne
      rw [Nat.add_assoc, Nat.add_comm 1 j] at hr
      exact ⟨j + 1, x', y', hj, hne', hr⟩
    · exact ⟨0, x, y, rfl, hy, hx⟩

/-- Where two maps differ, one entry differs. -/
theorem RebuildsEntries.exists_of_ne {child : String → Position.Child β}
    {es fs : List (String × Value)} (h : RebuildsEntries visit path child es fs) (hne : fs ≠ es) :
    ∃ (k : String) (x y : Value), (k, x) ∈ es ∧ y ≠ x ∧
      Rebuilds visit (path.push (child k).step) (child k).position x y := by
  induction fs generalizing es with
  | nil => exact absurd (rebuildsEntries_nil_iff.mp h).symm hne
  | cons f fs ih =>
    obtain ⟨k, y⟩ := f
    obtain ⟨x, rest, rfl, hx, hrest⟩ := rebuildsEntries_cons_iff.mp h
    by_cases hy : y = x
    · have hne : fs ≠ rest := fun he => hne (by rw [hy, he])
      obtain ⟨k', x', y', hk, hne', hr⟩ := ih hrest hne
      exact ⟨k', x', y', List.mem_cons_of_mem _ hk, hne', hr⟩
    · exact ⟨k, x, y, List.mem_cons_self, hy, hx⟩

/-! ## Walks that are functions -/

theorem RebuildsItems.eq_map {child : Nat → Value → Position.Child β} {F : Value → Value} {i : Nat}
    {xs ys : List Value} (h : RebuildsItems visit path child i xs ys)
    (hF : ∀ y ∈ ys, ∀ j x,
      Rebuilds visit (path.push (child j x).step) (child j x).position x y → y = F x) :
    ys = xs.map F := by
  induction ys generalizing xs i with
  | nil => rw [rebuildsItems_nil_iff.mp h]; rfl
  | cons y ys ih =>
    obtain ⟨x, rest, rfl, hx, hrest⟩ := rebuildsItems_cons_iff.mp h
    rw [List.map_cons, ← hF y List.mem_cons_self _ _ hx,
      ← ih hrest (fun z hz => hF z (List.mem_cons_of_mem _ hz))]

theorem RebuildsEntries.eq_map {child : String → Position.Child β} {F : String → Value → Value}
    {es fs : List (String × Value)} (h : RebuildsEntries visit path child es fs)
    (hF : ∀ f ∈ fs, ∀ x, Rebuilds visit (path.push (child f.1).step) (child f.1).position x f.2 →
      f.2 = F f.1 x) :
    fs = es.map fun e => (e.1, F e.1 e.2) := by
  induction fs generalizing es with
  | nil => rw [rebuildsEntries_nil_iff.mp h]; rfl
  | cons f fs ih =>
    obtain ⟨k, y⟩ := f
    obtain ⟨x, rest, rfl, hx, hrest⟩ := rebuildsEntries_cons_iff.mp h
    have hy : y = F k x := hF (k, y) List.mem_cons_self _ hx
    rw [List.map_cons, ← hy, ← ih hrest (fun g hg => hF g (List.mem_cons_of_mem _ hg))]

/-- A value that holds nothing stays what the visitor leaves it. -/
theorem Rebuilds.eq_of_visit_atom {v w : Value} (h : Rebuilds visit path position v w)
    (hv : v.isAtom = true) (hvisit : ∀ u, visit path (position.node path) v = .ok u → u = v) :
    w = v := by
  obtain ⟨u, hu, hbelow⟩ := h
  rw [hvisit u hu] at hbelow
  exact ((rebuildsBelow_of_atom_iff hv).mp hbelow).1.symm

/-- Where the visitor gives back what it was given, the walk does too. -/
theorem Rebuilds.eq_of_unchanged {I : Position β → Prop} (hI : Position.Hereditary I)
    (hvisit : ∀ {path position v u}, I position → visit path (position.node path) v = .ok u → u = v)
    {v w : Value} (hposition : I position) (h : Rebuilds visit path position v w) : w = v := by
  induction w using Value.contentsInduction generalizing path position v with
  | atom w hw =>
    obtain ⟨u, hu, hbelow⟩ := h
    rw [← ((rebuildsBelow_atom_iff hw).mp hbelow).1]
    exact hvisit hposition hu
  | list ys ih =>
    obtain ⟨u, hu, hbelow⟩ := h
    obtain ⟨xs, child, rfl, hc, hitems⟩ := rebuildsBelow_list_iff.mp hbelow
    rw [← hvisit hposition hu, hitems.eq_map (F := id), List.map_id]
    exact fun y hy j x hx => ih y hy (hI.item hposition hc _ _) hx
  | map fs ih =>
    obtain ⟨u, hu, hbelow⟩ := h
    obtain ⟨es, child, rfl, hc, hentries⟩ := rebuildsBelow_map_iff.mp hbelow
    rw [← hvisit hposition hu, hentries.eq_map (F := fun _ x => x), List.map_id']
    exact fun f hf x hx => ih f hf (hI.entry hposition hc _) hx

/-! ## Walking again -/

section

variable {visit' : Visit β (Except Fault)} {path' : Path}

theorem rebuildsItems_again {child : Nat → Value → Position.Child β}
    (hchild : ∀ i j x y, (child i x).position = (child j y).position) {i : Nat}
    {xs ys : List Value} (h : RebuildsItems visit path child i xs ys)
    (hys : ∀ y ∈ ys, ∀ path x path', Rebuilds visit path (child i x).position x y →
      Rebuilds visit' path' (child i x).position y y) :
    RebuildsItems visit' path' child i ys ys := by
  induction ys generalizing xs i with
  | nil => exact rebuildsItems_nil_iff.mpr rfl
  | cons y ys ih =>
    obtain ⟨x, rest, rfl, hx, hrest⟩ := rebuildsItems_cons_iff.mp h
    refine rebuildsItems_cons_iff.mpr ⟨y, ys, rfl, ?_, ih hrest ?_⟩
    · rw [hchild i i y x]
      exact hys y List.mem_cons_self _ x _ hx
    · intro z hz path x path' hx'
      rw [hchild (i + 1) i x x] at hx' ⊢
      exact hys z (List.mem_cons_of_mem _ hz) path x path' hx'

theorem rebuildsEntries_again {child : String → Position.Child β} {es fs : List (String × Value)}
    (h : RebuildsEntries visit path child es fs)
    (hfs : ∀ f ∈ fs, ∀ path x path', Rebuilds visit path (child f.1).position x f.2 →
      Rebuilds visit' path' (child f.1).position f.2 f.2) :
    RebuildsEntries visit' path' child fs fs := by
  induction fs generalizing es with
  | nil => exact rebuildsEntries_nil_iff.mpr rfl
  | cons f fs ih =>
    obtain ⟨l, y⟩ := f
    obtain ⟨x, rest, rfl, hx, hrest⟩ := rebuildsEntries_cons_iff.mp h
    refine rebuildsEntries_cons_iff.mpr ⟨y, fs, rfl, ?_, ih hrest ?_⟩
    · exact hfs (l, y) List.mem_cons_self _ x _ hx
    · intro f hf
      exact hfs f (List.mem_cons_of_mem _ hf)

theorem rebuildsEntries_self_iff {child : String → Position.Child β} {es : Keyed Value} :
    RebuildsEntries visit path child es es ↔
      ∀ e ∈ es, Rebuilds visit (path.push (child e.1).step) (child e.1).position e.2 e.2 := by
  induction es with
  | nil => simp [rebuildsEntries_nil_iff]
  | cons e es ih =>
    obtain ⟨k, x⟩ := e
    rw [rebuildsEntries_cons_iff, List.forall_mem_cons, ← ih]
    constructor
    · rintro ⟨_, _, heq, hx, hrest⟩
      cases heq
      exact ⟨hx, hrest⟩
    · rintro ⟨hx, hrest⟩
      exact ⟨x, es, rfl, hx, hrest⟩

/-- A visitor that gives back what was rebuilt leaves all of it as it is. -/
theorem Rebuilds.again {I : Position β → Prop} (hI : Position.Hereditary I)
    (hvisit : ∀ {path position v w} path', I position → Rebuilds visit path position v w →
      visit' path' (position.node path') w = .ok w)
    {v w : Value} (hposition : I position) (h : Rebuilds visit path position v w) :
    Rebuilds visit' path' position w w := by
  induction w using Value.contentsInduction generalizing path position v path' with
  | atom w hw =>
    obtain ⟨u, _, hbelow⟩ := id h
    refine ⟨w, hvisit path' hposition h, ?_⟩
    exact (rebuildsBelow_atom_iff hw).mpr ⟨rfl, ((rebuildsBelow_atom_iff hw).mp hbelow).2⟩
  | list ys ih =>
    obtain ⟨u, _, hbelow⟩ := id h
    obtain ⟨xs, child, _, hc, hitems⟩ := rebuildsBelow_list_iff.mp hbelow
    refine ⟨.list ys, hvisit path' hposition h, rebuildsBelow_list_iff.mpr ⟨ys, child, rfl, hc, ?_⟩⟩
    refine rebuildsItems_again (Position.itemChild_position hc) hitems ?_
    intro y hy path x path' hx
    exact ih y hy (hI.item hposition hc _ _) hx
  | map fs ih =>
    obtain ⟨u, _, hbelow⟩ := id h
    obtain ⟨es, child, _, hc, hentries⟩ := rebuildsBelow_map_iff.mp hbelow
    refine ⟨.map fs, hvisit path' hposition h, rebuildsBelow_map_iff.mpr ⟨fs, child, rfl, hc, ?_⟩⟩
    refine rebuildsEntries_again hentries ?_
    intro f hf path x path' hx
    exact ih f hf (hI.entry hposition hc _) hx

end

end ProviderKit
