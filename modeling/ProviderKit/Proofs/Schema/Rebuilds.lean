import ProviderKit.Proofs.Value.Contents
import ProviderKit.Schema.Walk

-- Walks from the top down without their counting of levels. A walk that has levels enough
-- relates a value to what it is rebuilt as, and the relation says position by position how.

namespace ProviderKit

variable {β : Type}

/-! ## The relation -/

section

variable (visit : Visit β (Except Fault))

mutual
/-- What a walk from the top down makes of the positions right below a value that the visitor
gave back. -/
def RebuildsBelow (path : Path) (position : Position β) (u : Value) : Value → Prop
  | .list ys =>
    ∃ xs child, u = .list xs ∧ position.itemChild = some child ∧ RebuildsItems path child 0 xs ys
  | .map fs =>
    ∃ es child, u = .map es ∧ position.entryChild = some child ∧ RebuildsEntries path child es fs
  | w => u = w ∧ (w.isKnown = true → position.demand = none)

def RebuildsItems (path : Path) (child : Nat → Value → Position.Child β) :
    Nat → List Value → List Value → Prop
  | _, xs, [] => xs = []
  | i, xs, y :: ys =>
    ∃ x rest u, xs = x :: rest ∧
      visit (path.push (child i x).step) ((child i x).position.node (path.push (child i x).step)) x
        = .ok u ∧
      RebuildsBelow (path.push (child i x).step) (child i x).position u y ∧
      RebuildsItems path child (i + 1) rest ys

def RebuildsEntries (path : Path) (child : String → Position.Child β) :
    List (String × Value) → List (String × Value) → Prop
  | es, [] => es = []
  | es, (k, y) :: fs =>
    ∃ x rest u, es = (k, x) :: rest ∧
      visit (path.push (child k).step) ((child k).position.node (path.push (child k).step)) x
        = .ok u ∧
      RebuildsBelow (path.push (child k).step) (child k).position u y ∧
      RebuildsEntries path child rest fs
end

/-- A walk from the top down rebuilds the value at a position as another: the visitor gives a
value back, and the positions below that one are rebuilt in turn. -/
def Rebuilds (path : Path) (position : Position β) (v w : Value) : Prop :=
  ∃ u, visit path (position.node path) v = .ok u ∧ RebuildsBelow visit path position u w

end

variable {visit : Visit β (Except Fault)} {path : Path} {position : Position β}

theorem rebuildsBelow_list_iff {u : Value} {ys : List Value} :
    RebuildsBelow visit path position u (.list ys) ↔ ∃ xs child, u = .list xs ∧
      position.itemChild = some child ∧ RebuildsItems visit path child 0 xs ys := by
  rw [RebuildsBelow]

theorem rebuildsBelow_map_iff {u : Value} {fs : List (String × Value)} :
    RebuildsBelow visit path position u (.map fs) ↔ ∃ es child, u = .map es ∧
      position.entryChild = some child ∧ RebuildsEntries visit path child es fs := by
  rw [RebuildsBelow]

theorem rebuildsBelow_atom_iff {u w : Value} (hw : w.isAtom = true) :
    RebuildsBelow visit path position u w ↔
      u = w ∧ (w.isKnown = true → position.demand = none) := by
  cases w <;> simp only [Value.isAtom, Bool.false_eq_true] at hw <;> simp [RebuildsBelow]

/-- Nothing is rebuilt below a value that holds nothing. -/
theorem rebuildsBelow_of_atom_iff {u w : Value} (hu : u.isAtom = true) :
    RebuildsBelow visit path position u w ↔
      u = w ∧ (u.isKnown = true → position.demand = none) := by
  cases w
  case list ys =>
    rw [rebuildsBelow_list_iff]
    constructor
    · rintro ⟨xs, _, rfl, _⟩
      cases hu
    · rintro ⟨rfl, _⟩
      cases hu
  case map fs =>
    rw [rebuildsBelow_map_iff]
    constructor
    · rintro ⟨es, _, rfl, _⟩
      cases hu
    · rintro ⟨rfl, _⟩
      cases hu
  all_goals
    rw [rebuildsBelow_atom_iff rfl]
    constructor <;> rintro ⟨rfl, h⟩ <;> exact ⟨rfl, h⟩

/-- What is rebuilt below a list is a list. -/
theorem rebuildsBelow_of_list_iff {xs : List Value} {w : Value} :
    RebuildsBelow visit path position (.list xs) w ↔ ∃ ys child, w = .list ys ∧
      position.itemChild = some child ∧ RebuildsItems visit path child 0 xs ys := by
  cases w
  case list ys =>
    rw [rebuildsBelow_list_iff]
    constructor
    · rintro ⟨_, child, h, hc, hitems⟩
      cases h
      exact ⟨ys, child, rfl, hc, hitems⟩
    · rintro ⟨_, child, h, hc, hitems⟩
      cases h
      exact ⟨xs, child, rfl, hc, hitems⟩
  case map fs =>
    rw [rebuildsBelow_map_iff]
    simp
  all_goals
    rw [rebuildsBelow_atom_iff rfl]
    simp

/-- What is rebuilt below a map is a map. -/
theorem rebuildsBelow_of_map_iff {es : List (String × Value)} {w : Value} :
    RebuildsBelow visit path position (.map es) w ↔ ∃ fs child, w = .map fs ∧
      position.entryChild = some child ∧ RebuildsEntries visit path child es fs := by
  cases w
  case list ys =>
    rw [rebuildsBelow_list_iff]
    simp
  case map fs =>
    rw [rebuildsBelow_map_iff]
    constructor
    · rintro ⟨_, child, h, hc, hentries⟩
      cases h
      exact ⟨fs, child, rfl, hc, hentries⟩
    · rintro ⟨_, child, h, hc, hentries⟩
      cases h
      exact ⟨es, child, rfl, hc, hentries⟩
  all_goals
    rw [rebuildsBelow_atom_iff rfl]
    simp

theorem rebuildsItems_nil_iff {child : Nat → Value → Position.Child β} {i : Nat} {xs : List Value} :
    RebuildsItems visit path child i xs [] ↔ xs = [] := by
  rw [RebuildsItems]

theorem rebuildsItems_cons_iff {child : Nat → Value → Position.Child β} {i : Nat}
    {xs ys : List Value} {y : Value} :
    RebuildsItems visit path child i xs (y :: ys) ↔ ∃ x rest, xs = x :: rest ∧
      Rebuilds visit (path.push (child i x).step) (child i x).position x y ∧
      RebuildsItems visit path child (i + 1) rest ys := by
  rw [RebuildsItems]
  constructor
  · rintro ⟨x, rest, u, hx, hu, hbelow, hrest⟩
    exact ⟨x, rest, hx, ⟨u, hu, hbelow⟩, hrest⟩
  · rintro ⟨x, rest, hx, ⟨u, hu, hbelow⟩, hrest⟩
    exact ⟨x, rest, u, hx, hu, hbelow, hrest⟩

theorem rebuildsEntries_nil_iff {child : String → Position.Child β} {es : List (String × Value)} :
    RebuildsEntries visit path child es [] ↔ es = [] := by
  rw [RebuildsEntries]

theorem rebuildsEntries_cons_iff {child : String → Position.Child β}
    {es fs : List (String × Value)} {k : String} {y : Value} :
    RebuildsEntries visit path child es ((k, y) :: fs) ↔ ∃ x rest, es = (k, x) :: rest ∧
      Rebuilds visit (path.push (child k).step) (child k).position x y ∧
      RebuildsEntries visit path child rest fs := by
  rw [RebuildsEntries]
  constructor
  · rintro ⟨x, rest, u, hx, hu, hbelow, hrest⟩
    exact ⟨x, rest, hx, ⟨u, hu, hbelow⟩, hrest⟩
  · rintro ⟨x, rest, hx, ⟨u, hu, hbelow⟩, hrest⟩
    exact ⟨x, rest, u, hx, hu, hbelow, hrest⟩

/-! ## Levels enough -/

theorem Value.depth_le_itemsDepth {xs : List Value} {x : Value} (h : x ∈ xs) :
    x.depth ≤ itemsDepth xs := by
  induction xs with
  | nil => simp at h
  | cons y ys ih =>
    unfold itemsDepth
    rcases List.mem_cons.mp h with h | h
    · rw [h]; omega
    · have := ih h; omega

theorem Value.depth_le_entriesDepth {es : List (String × Value)} {e : String × Value}
    (h : e ∈ es) : e.2.depth ≤ entriesDepth es := by
  induction es with
  | nil => simp at h
  | cons f fs ih =>
    unfold entriesDepth
    rcases List.mem_cons.mp h with h | h
    · rw [← h]; omega
    · have := ih h; omega

/-- Where no entries continue, something else is demanded. -/
theorem Position.demand_of_entryChild_eq_none {position : Position β}
    (h : position.entryChild = none) : ∃ shape, position.demand = some shape := by
  cases position with
  | described n =>
    simp only [entryChild] at h
    simp only [demand]
    cases hv : n.view <;> simp [hv] at h ⊢
  | atomic type => simp [entryChild] at h
  | undeclared => simp [entryChild] at h

/-- Where no items continue, something else is demanded. -/
theorem Position.demand_of_itemChild_eq_none {position : Position β}
    (h : position.itemChild = none) : ∃ shape, position.demand = some shape := by
  cases position with
  | described n =>
    simp only [itemChild] at h
    simp only [demand]
    cases hv : n.view <;> simp [hv] at h ⊢
  | atomic type => simp [itemChild] at h
  | undeclared => simp [itemChild] at h

theorem bind_eq_ok_iff {ε α γ : Type} {x : Except ε α} {f : α → Except ε γ} {c : γ} :
    x >>= f = .ok c ↔ ∃ a, x = .ok a ∧ f a = .ok c := by
  cases x with
  | error e => simp [bind, Except.bind]
  | ok a => simp [bind, Except.bind]

section

variable {walk : Path → Position β → Value → Except Fault Value}

theorem walkItems_eq_ok_iff {child : Nat → Value → Position.Child β} {ys : List Value}
    (h : ∀ y ∈ ys, ∀ path position x,
      walk path position x = .ok y ↔ Rebuilds visit path position x y)
    (i : Nat) (xs : List Value) :
    walkItems walk path child i xs = .ok ys ↔ RebuildsItems visit path child i xs ys := by
  induction xs generalizing ys i with
  | nil =>
    cases ys <;>
      simp [walkItems, rebuildsItems_nil_iff, rebuildsItems_cons_iff, pure, Except.pure]
  | cons x xs ih =>
    simp only [walkItems, bind_eq_ok_iff, pure, Except.pure, Except.ok.injEq]
    cases ys with
    | nil => simp [rebuildsItems_nil_iff]
    | cons y ys =>
      have hy := h y List.mem_cons_self (path.push (child i x).step) (child i x).position x
      have hys := ih (fun z hz => h z (List.mem_cons_of_mem _ hz)) (i + 1)
      simp only [rebuildsItems_cons_iff, List.cons.injEq]
      constructor
      · rintro ⟨_, hwalk, _, hrest, rfl, rfl⟩
        exact ⟨x, xs, ⟨rfl, rfl⟩, hy.mp hwalk, hys.mp hrest⟩
      · rintro ⟨_, _, ⟨rfl, rfl⟩, hwalk, hrest⟩
        exact ⟨y, hy.mpr hwalk, ys, hys.mpr hrest, rfl, rfl⟩

theorem walkEntries_eq_ok_iff {child : String → Position.Child β} {fs : List (String × Value)}
    (h : ∀ f ∈ fs, ∀ path position x,
      walk path position x = .ok f.2 ↔ Rebuilds visit path position x f.2)
    (es : List (String × Value)) :
    walkEntries walk path child es = .ok fs ↔ RebuildsEntries visit path child es fs := by
  induction es generalizing fs with
  | nil => rcases fs with _ | ⟨⟨l, y⟩, fs⟩ <;> 
      simp [walkEntries, rebuildsEntries_nil_iff, rebuildsEntries_cons_iff, pure, Except.pure]
  | cons e es ih =>
    obtain ⟨k, x⟩ := e
    simp only [walkEntries, bind_eq_ok_iff, pure, Except.pure, Except.ok.injEq]
    rcases fs with _ | ⟨⟨l, y⟩, fs⟩
    · simp [rebuildsEntries_nil_iff]
    · have hy := h (l, y) List.mem_cons_self (path.push (child k).step) (child k).position x
      have hys := ih (fun z hz => h z (List.mem_cons_of_mem _ hz))
      simp only [rebuildsEntries_cons_iff, List.cons.injEq, Prod.mk.injEq]
      constructor
      · rintro ⟨_, hwalk, _, hrest, ⟨rfl, rfl⟩, rfl⟩
        exact ⟨x, es, ⟨⟨rfl, rfl⟩, rfl⟩, hy.mp hwalk, hys.mp hrest⟩
      · rintro ⟨_, _, ⟨⟨rfl, rfl⟩, rfl⟩, hwalk, hrest⟩
        exact ⟨y, hy.mpr hwalk, fs, hys.mpr hrest, ⟨rfl, rfl⟩, rfl⟩

theorem mismatch_eq_ok_iff {v w : Value} :
    walkBelow.mismatch (m := Except Fault) path position v = .ok w ↔
      position.demand = none ∧ v = w := by
  unfold walkBelow.mismatch
  cases position.demand with
  | some shape => simp [throwThe, MonadExceptOf.throw]
  | none => simp [pure, Except.pure]

theorem walkBelow_eq_ok_iff {u w : Value}
    (h : ∀ y, y.depth < w.depth → ∀ path position x,
      walk path position x = .ok y ↔ Rebuilds visit path position x y) :
    walkBelow walk path position u = .ok w ↔ RebuildsBelow visit path position u w := by
  cases u
  case list xs =>
    rw [rebuildsBelow_of_list_iff]
    unfold walkBelow
    cases hc : position.itemChild with
    | none =>
      obtain ⟨shape, hshape⟩ := Position.demand_of_itemChild_eq_none hc
      simp [mismatch_eq_ok_iff, hshape]
    | some child =>
      simp only [bind_eq_ok_iff, pure, Except.pure, Except.ok.injEq, Option.some.injEq]
      have hitems : ∀ ys, w = .list ys → (walkItems walk path child 0 xs = .ok ys ↔
          RebuildsItems visit path child 0 xs ys) := by
        intro ys hw
        refine walkItems_eq_ok_iff (fun y hy => h y ?_) 0 xs
        have := Value.depth_le_itemsDepth hy
        rw [hw, Value.depth]
        omega
      constructor
      · rintro ⟨ys, hwalk, rfl⟩
        exact ⟨ys, child, rfl, rfl, (hitems ys rfl).mp hwalk⟩
      · rintro ⟨ys, _, rfl, rfl, hrebuilds⟩
        exact ⟨ys, (hitems ys rfl).mpr hrebuilds, rfl⟩
  case map es =>
    rw [rebuildsBelow_of_map_iff]
    unfold walkBelow
    cases hc : position.entryChild with
    | none =>
      obtain ⟨shape, hshape⟩ := Position.demand_of_entryChild_eq_none hc
      simp [mismatch_eq_ok_iff, hshape]
    | some child =>
      simp only [bind_eq_ok_iff, pure, Except.pure, Except.ok.injEq, Option.some.injEq]
      have hentries : ∀ fs, w = .map fs → (walkEntries walk path child es = .ok fs ↔
          RebuildsEntries visit path child es fs) := by
        intro fs hw
        refine walkEntries_eq_ok_iff (fun f hf => h f.2 ?_) es
        have := Value.depth_le_entriesDepth hf
        rw [hw, Value.depth]
        omega
      constructor
      · rintro ⟨fs, hwalk, rfl⟩
        exact ⟨fs, child, rfl, rfl, (hentries fs rfl).mp hwalk⟩
      · rintro ⟨fs, _, rfl, rfl, hrebuilds⟩
        exact ⟨fs, (hentries fs rfl).mpr hrebuilds, rfl⟩
  all_goals
    rw [rebuildsBelow_of_atom_iff rfl]
    simp [walkBelow, mismatch_eq_ok_iff, pure, Except.pure, Value.isKnown, Value.isNull,
      Value.isUnknown, and_comm]

end

/-- A walk whose outcome has fewer levels than it counts is the relation. -/
theorem walkLevels_eq_ok_iff {levels : Nat} {v w : Value} (h : w.depth < levels) :
    walkLevels .topDown visit levels path position v = .ok w ↔
      Rebuilds visit path position v w := by
  induction levels generalizing path position v w with
  | zero => omega
  | succ levels ih =>
    simp only [walkLevels, bind_eq_ok_iff, Rebuilds]
    have hbelow : ∀ u, walkBelow (walkLevels .topDown visit levels) path position u = .ok w ↔
        RebuildsBelow visit path position u w := by
      intro u
      refine walkBelow_eq_ok_iff (fun y hy path position x => ih ?_)
      omega
    simp only [hbelow]

/-! ## How deep an outcome is -/

section

variable {walk : Path → Position β → Value → Except Fault Value} {growth : Position β → Nat}
  (hwalk : ∀ path position x y, walk path position x = .ok y →
    y.depth ≤ x.depth + growth position)

include hwalk

theorem itemsDepth_le_of_walkItems {child : Nat → Value → Position.Child β} {bound : Nat}
    (hchild : ∀ i x, growth (child i x).position ≤ bound) {i : Nat} {xs ys : List Value}
    (h : walkItems walk path child i xs = .ok ys) :
    Value.itemsDepth ys ≤ Value.itemsDepth xs + bound := by
  induction xs generalizing ys i with
  | nil =>
    simp only [walkItems, pure, Except.pure, Except.ok.injEq] at h
    subst h
    simp [Value.itemsDepth]
  | cons x xs ih =>
    simp only [walkItems, bind_eq_ok_iff, pure, Except.pure, Except.ok.injEq] at h
    obtain ⟨y, hy, zs, hzs, rfl⟩ := h
    have hx := hwalk _ _ _ _ hy
    have hc := hchild i x
    have hrest := ih hzs
    simp only [Value.itemsDepth]
    omega

theorem entriesDepth_le_of_walkEntries {child : String → Position.Child β} {bound : Nat}
    (hchild : ∀ k, growth (child k).position ≤ bound) {es fs : List (String × Value)}
    (h : walkEntries walk path child es = .ok fs) :
    Value.entriesDepth fs ≤ Value.entriesDepth es + bound := by
  induction es generalizing fs with
  | nil =>
    simp only [walkEntries, pure, Except.pure, Except.ok.injEq] at h
    subst h
    simp [Value.entriesDepth]
  | cons e es ih =>
    obtain ⟨k, x⟩ := e
    simp only [walkEntries, bind_eq_ok_iff, pure, Except.pure, Except.ok.injEq] at h
    obtain ⟨y, hy, gs, hgs, rfl⟩ := h
    have hx := hwalk _ _ _ _ hy
    have hc := hchild k
    have hrest := ih hgs
    simp only [Value.entriesDepth]
    omega

end

/-- A visitor may add levels: `growth` bounds how many are added from a position on, and
`below` how many from its children on. -/
structure Grows (visit : Visit β (Except Fault)) (growth below : Position β → Nat) : Prop where
  visit_depth : ∀ path position v u, visit path (position.node path) v = .ok u →
    u.depth + below position ≤ v.depth + growth position
  entry : ∀ position child k, Position.entryChild position = some child →
    growth (child k).position ≤ below position
  item : ∀ position child i x, Position.itemChild position = some child →
    growth (child i x).position ≤ below position

theorem Grows.depth_le {growth below : Position β → Nat} (hg : Grows visit growth below)
    {levels : Nat} {v w : Value}
    (h : walkLevels .topDown visit levels path position v = .ok w) :
    w.depth ≤ v.depth + growth position := by
  induction levels generalizing path position v w with
  | zero =>
    simp only [walkLevels, pure, Except.pure, Except.ok.injEq] at h
    rw [h]
    omega
  | succ levels ih =>
    simp only [walkLevels, bind_eq_ok_iff] at h
    obtain ⟨u, hu, hbelow⟩ := h
    have hd := hg.visit_depth _ _ _ _ hu
    have hwalk := fun path position x y
      (hy : walkLevels .topDown visit levels path position x = .ok y) => ih hy
    have hle : w.depth ≤ u.depth + below position := by
      cases u
      case list xs =>
        unfold walkBelow at hbelow
        cases hc : position.itemChild with
        | none => simp only [hc, mismatch_eq_ok_iff] at hbelow; rw [← hbelow.2]; omega
        | some child =>
          simp only [hc, bind_eq_ok_iff, pure, Except.pure, Except.ok.injEq] at hbelow
          obtain ⟨ys, hys, rfl⟩ := hbelow
          have := itemsDepth_le_of_walkItems hwalk (fun i x => hg.item _ _ i x hc) hys
          simp only [Value.depth]
          omega
      case map es =>
        unfold walkBelow at hbelow
        cases hc : position.entryChild with
        | none => simp only [hc, mismatch_eq_ok_iff] at hbelow; rw [← hbelow.2]; omega
        | some child =>
          simp only [hc, bind_eq_ok_iff, pure, Except.pure, Except.ok.injEq] at hbelow
          obtain ⟨fs, hfs, rfl⟩ := hbelow
          have := entriesDepth_le_of_walkEntries hwalk (fun k => hg.entry _ _ k hc) hfs
          simp only [Value.depth]
          omega
      case null | unknown =>
        simp only [walkBelow, pure, Except.pure, Except.ok.injEq] at hbelow
        rw [← hbelow]
        omega
      all_goals
        simp only [walkBelow, mismatch_eq_ok_iff] at hbelow
        rw [← hbelow.2]
        omega
    omega

/-- A visitor that never adds levels. -/
theorem Grows.of_depth_le
    (h : ∀ path position v u, visit path (Position.node path position) v = .ok u →
      u.depth ≤ v.depth) : Grows visit (fun _ => 0) (fun _ => 0) :=
  ⟨fun path position v u hu => by have := h path position v u hu; omega,
    fun _ _ _ _ => Nat.le_refl 0, fun _ _ _ _ _ => Nat.le_refl 0⟩

theorem Grows.depth_le_of_rebuilds {growth below : Position β → Nat}
    (hg : Grows visit growth below) {v w : Value} (h : Rebuilds visit path position v w) :
    w.depth ≤ v.depth + growth position :=
  hg.depth_le ((walkLevels_eq_ok_iff (Nat.lt_succ_self w.depth)).mpr h)

/-- A walk over a whole value is the relation at the root. -/
theorem transform_eq_ok_iff {s : Schema β} {growth below : Position β → Nat}
    (hg : Grows visit growth below) {levels : Nat}
    (hroot : growth (.described (.block s.root)) ≤ levels) {v w : Value} :
    s.transform .topDown visit v levels = .ok w ↔
      Rebuilds visit .root (.described (.block s.root)) v w := by
  unfold Schema.transform
  constructor
  · intro h
    have hd := hg.depth_le h
    exact (walkLevels_eq_ok_iff (by omega)).mp h
  · intro h
    have hd := hg.depth_le_of_rebuilds h
    exact (walkLevels_eq_ok_iff (by omega)).mpr h

end ProviderKit
