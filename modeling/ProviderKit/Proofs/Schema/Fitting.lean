import ProviderKit.Proofs.Schema.Filled

-- Values that fit a schema: what is known in them has the shape that the schema asks for there,
-- and every name in them is declared. A visitor that keeps values fitting never ends a walk.

namespace ProviderKit

variable {β : Type}

/-! ## The relation -/

/-- A value fits a position. Null and unknown values fit wherever the schema declares anything. -/
inductive Position.Fits : Position β → Value → Prop
  | atom {position : Position β} {v : Value} : position ≠ .undeclared → v.isAtom = true →
      (v.isKnown = true → position.demand = none) → Fits position v
  | list {position : Position β} {xs : List Value} {child : Nat → Value → Position.Child β} :
      position ≠ .undeclared → position.itemChild = some child →
      (∀ x ∈ xs, ∀ i, Fits (child i x).position x) → Fits position (.list xs)
  | map {position : Position β} {es : List (String × Value)} {child : String → Position.Child β} :
      position ≠ .undeclared → position.entryChild = some child →
      (∀ e ∈ es, Fits (child e.1).position e.2) → Fits position (.map es)

namespace Position

theorem Fits.declared {position : Position β} {v : Value} (h : position.Fits v) :
    position ≠ .undeclared := by
  cases h <;> assumption

theorem described_ne_undeclared (n : Node β) : Position.described n ≠ .undeclared := nofun

theorem fits_of_not_known {position : Position β} (hd : position ≠ .undeclared) {v : Value}
    (h : v.isKnown = false) : position.Fits v := by
  cases v
  case null => exact .atom hd rfl (by simp [Value.isKnown, Value.isNull])
  case unknown => exact .atom hd rfl (by simp [Value.isKnown, Value.isNull, Value.isUnknown])
  all_goals cases h

/-! ## Positions without nodes -/

/-- Inside an atomic attribute everything fits. -/
theorem fits_atomic (type : Option AttributeType) (v : Value) :
    (Position.atomic (β := β) type).Fits v := by
  induction v using Value.contentsInduction generalizing type with
  | atom v hv => exact .atom nofun hv fun _ => rfl
  | list xs ih =>
    refine .list nofun rfl (fun x hx i => ?_)
    obtain ⟨inner, hinner⟩ := exists_atomicItem_position (β := β) type i x
    rw [hinner]
    exact ih x hx inner
  | map es ih =>
    refine .map nofun rfl (fun e he => ?_)
    obtain ⟨inner, hinner⟩ := exists_atomicEntry_position (β := β) type e.1
    rw [hinner]
    exact ih e he inner

/-- So it does in the attribute itself. -/
theorem fits_of_view_atomic {n : Node β} {type : AttributeType} (hv : n.view = .atomic type)
    (v : Value) : (Position.described n).Fits v := by
  cases v
  case list xs =>
    have hc : (Position.described n).itemChild = some (itemChild.atomicItem (some type)) := by
      rw [itemChild, hv]
    refine .list (described_ne_undeclared n) hc (fun x _ i => ?_)
    obtain ⟨inner, hinner⟩ := exists_atomicItem_position (β := β) (some type) i x
    rw [hinner]
    exact fits_atomic inner x
  case map es =>
    have hc : (Position.described n).entryChild = some (entryChild.atomicEntry (some type)) := by
      rw [entryChild, hv]
    refine .map (described_ne_undeclared n) hc (fun e _ => ?_)
    obtain ⟨inner, hinner⟩ := exists_atomicEntry_position (β := β) (some type) e.1
    rw [hinner]
    exact fits_atomic inner e.2
  all_goals exact .atom (described_ne_undeclared n) rfl fun _ => by rw [demand, hv]

/-! ## Objects and collections -/

section

variable {n element : Node β} {attributes : List (String × Attribute β)}
  {blocks : List (String × NestedBlock β)}

theorem exists_entryChild_of_object (hv : n.view = .object attributes blocks) :
    ∃ child, (Position.described n).entryChild = some child ∧
      ∀ name m, Node.member? attributes blocks name = some m →
        (child name).position = .described m := by
  simp only [entryChild, hv]
  exact ⟨_, rfl, fun name m hm => by rw [hm]⟩

/-- An object fits when each of its names is declared and has a value that fits there. -/
theorem fits_object (hv : n.view = .object attributes blocks) {es : List (String × Value)}
    (h : ∀ e ∈ es, ∃ m, Node.member? attributes blocks e.1 = some m ∧
      (Position.described m).Fits e.2) : (Position.described n).Fits (.map es) := by
  obtain ⟨child, hc, hchild⟩ := exists_entryChild_of_object hv
  refine .map (described_ne_undeclared n) hc (fun e he => ?_)
  obtain ⟨m, hm, hfits⟩ := h e he
  rw [hchild _ m hm]
  exact hfits

theorem fits_items (hv : n.view = .list element ∨ n.view = .set element) {xs : List Value}
    (h : ∀ x ∈ xs, (Position.described element).Fits x) :
    (Position.described n).Fits (.list xs) := by
  have hc : ∃ child, (Position.described n).itemChild = some child ∧
      ∀ i x, (child i x).position = .described element := by
    rcases hv with hv | hv <;>
    · simp only [itemChild, hv]
      exact ⟨_, rfl, fun _ _ => rfl⟩
  obtain ⟨child, hc, hchild⟩ := hc
  refine .list (described_ne_undeclared n) hc (fun x hx i => ?_)
  rw [hchild]
  exact h x hx

theorem fits_entries (hv : n.view = .map element) {es : List (String × Value)}
    (h : ∀ e ∈ es, (Position.described element).Fits e.2) :
    (Position.described n).Fits (.map es) := by
  have hc : (Position.described n).entryChild = some (fun key => ⟨.key key, .described element⟩) := by
    rw [entryChild, hv]
  exact .map (described_ne_undeclared n) hc h

end

end Position

/-! ## Filling out -/

theorem exists_member?_of_mem_names {attributes : List (String × Attribute β)}
    {blocks : List (String × NestedBlock β)} {name : String}
    (h : name ∈ Keyed.keys attributes ++ Keyed.keys blocks) :
    ∃ m, Node.member? attributes blocks name = some m := by
  unfold Node.member?
  cases ha : Keyed.get? attributes name with
  | some a => exact ⟨_, rfl⟩
  | none =>
    rcases List.mem_append.mp h with h | h
    · obtain ⟨a, ha'⟩ := Keyed.exists_get?_of_mem_keys h
      rw [ha] at ha'
      cases ha'
    · obtain ⟨b, hb⟩ := Keyed.exists_get?_of_mem_keys h
      exact ⟨.nestedBlock b, by rw [hb]; rfl⟩

theorem fst_mem_of_mem_fillNames {names : List String} {es : Keyed Value} {e : String × Value}
    (h : e ∈ fillNames names es) : e.1 ∈ names ∨ e ∈ es := by
  unfold fillNames at h
  induction names generalizing es with
  | nil => exact .inr h
  | cons name names ih =>
    rcases ih h with h | h
    · exact .inl (List.mem_cons_of_mem _ h)
    · rcases Keyed.mem_insertNew h with h | h
      · exact .inl (h ▸ List.mem_cons_self)
      · exact .inr h

namespace Position

variable {position : Position β} {v : Value}

/-- The names that are added are declared, and null fits there. -/
theorem Fits.fillNode (h : position.Fits v) (path : Path) :
    position.Fits (ProviderKit.fillNode (position.node path) v) := by
  cases h with
  | atom hd ha hk =>
    rw [fillNode_of_atom _ ha]
    exact .atom hd ha hk
  | list hd hc hitems =>
    rw [fillNode_of_not_map _ rfl]
    exact .list hd hc hitems
  | @map _ es child hd hc hentries =>
    cases position with
    | described n =>
      rw [node, fillNode_map]
      refine .map (described_ne_undeclared n) hc (fun e he => ?_)
      rcases fst_mem_of_mem_fillNames he with hname | he'
      · rcases mem_fillNames he with hnull | he'
        · have hdeclared : (child e.1).position ≠ .undeclared := by
            unfold Node.names at hname
            split at hname
            · next attributes blocks hv =>
              obtain ⟨m, hm⟩ := exists_member?_of_mem_names hname
              obtain ⟨child', hc', hchild'⟩ := exists_entryChild_of_object hv
              rw [hc] at hc'
              cases hc'
              rw [hchild' _ m hm]
              exact described_ne_undeclared m
            · cases hname
          rw [hnull]
          exact fits_of_not_known hdeclared rfl
        · exact hentries e he'
      · exact hentries e he'
    | atomic type =>
      rw [node, fillNode_of_error]
      exact .map hd hc hentries
    | undeclared => exact absurd rfl hd

/-! ## Walks -/

/-- Where a value fits, the visitor gives back a value that fits. -/
def KeptFitting (visit : Visit β (Except Fault)) : Prop :=
  ∀ path (position : Position β) v, position.Fits v →
    ∃ u, visit path (position.node path) v = .ok u ∧ position.Fits u

section

variable {walk : Path → Position β → Value → Except Fault Value}
  (hwalk : ∀ path position x, Fits position x →
    ∃ y, walk path position x = .ok y ∧ position.Fits y)

include hwalk

theorem exists_walkItems {child : Nat → Value → Child β} (path : Path) {xs : List Value}
    (h : ∀ x ∈ xs, ∀ i, (child i x).position.Fits x) (i : Nat) :
    ∃ ys, walkItems walk path child i xs = .ok ys ∧
      ∀ y ∈ ys, ∃ j x, (child j x).position.Fits y := by
  induction xs generalizing i with
  | nil => exact ⟨[], rfl, nofun⟩
  | cons x xs ih =>
    obtain ⟨y, hy, hfits⟩ := hwalk (path.push (child i x).step) _ x (h x List.mem_cons_self i)
    obtain ⟨ys, hys, hrest⟩ := ih (fun x hx => h x (List.mem_cons_of_mem _ hx)) (i + 1)
    refine ⟨y :: ys, ?_, ?_⟩
    · simp only [walkItems, hy, hys, bind, Except.bind, pure, Except.pure]
    · intro z hz
      rcases List.mem_cons.mp hz with rfl | hz
      · exact ⟨i, x, hfits⟩
      · exact hrest z hz

theorem exists_walkEntries {child : String → Child β} (path : Path) {es : List (String × Value)}
    (h : ∀ e ∈ es, (child e.1).position.Fits e.2) :
    ∃ fs, walkEntries walk path child es = .ok fs ∧ ∀ f ∈ fs, (child f.1).position.Fits f.2 := by
  induction es with
  | nil => exact ⟨[], rfl, nofun⟩
  | cons e es ih =>
    obtain ⟨k, x⟩ := e
    obtain ⟨y, hy, hfits⟩ := hwalk (path.push (child k).step) _ x (h (k, x) List.mem_cons_self)
    obtain ⟨fs, hfs, hrest⟩ := ih (fun e he => h e (List.mem_cons_of_mem _ he))
    refine ⟨(k, y) :: fs, ?_, ?_⟩
    · simp only [walkEntries, hy, hfs, bind, Except.bind, pure, Except.pure]
    · intro f hf
      rcases List.mem_cons.mp hf with rfl | hf
      · exact hfits
      · exact hrest f hf

theorem Fits.exists_walkBelow (h : position.Fits v) (path : Path) :
    ∃ w, walkBelow walk path position v = .ok w ∧ position.Fits w := by
  cases h with
  | atom hd ha hk =>
    refine ⟨v, ?_, .atom hd ha hk⟩
    cases v
    case list | map => cases ha
    case null | unknown => rfl
    all_goals
      simp only [walkBelow, mismatch_eq_ok_iff, and_true]
      exact hk rfl
  | @list _ xs child hd hc hitems =>
    obtain ⟨ys, hys, hfits⟩ := exists_walkItems hwalk path hitems 0
    refine ⟨.list ys, ?_, .list hd hc (fun y hy i => ?_)⟩
    · simp only [walkBelow, hc, hys, bind, Except.bind, pure, Except.pure]
    · obtain ⟨j, x, hyx⟩ := hfits y hy
      rwa [itemChild_position hc i j y x]
  | @map _ es child hd hc hentries =>
    obtain ⟨fs, hfs, hfits⟩ := exists_walkEntries hwalk path hentries
    refine ⟨.map fs, ?_, .map hd hc hfits⟩
    simp only [walkBelow, hc, hfs, bind, Except.bind, pure, Except.pure]

end

/-- A visitor that keeps values fitting walks all of a value that fits. -/
theorem KeptFitting.exists_walkLevels {visit : Visit β (Except Fault)} (hvisit : KeptFitting visit)
    (levels : Nat) (path : Path) (position : Position β) (v : Value) (h : position.Fits v) :
    ∃ w, walkLevels .topDown visit levels path position v = .ok w ∧ position.Fits w := by
  induction levels generalizing path position v with
  | zero => exact ⟨v, rfl, h⟩
  | succ levels ih =>
    obtain ⟨u, hu, hfits⟩ := hvisit path position v h
    obtain ⟨w, hw, hfits⟩ := hfits.exists_walkBelow ih path
    refine ⟨w, ?_, hfits⟩
    simp only [walkLevels, hu, hw, bind, Except.bind]

end Position

/-! ## What a visitor is told -/

/-- A visitor that leaves every value as it is, and notes what it is told of the schema at each
position. -/
def watching : Visit β (StateT (List (Except Fault (Node β))) (Except Fault)) :=
  fun _ node v => do
    modify (· ++ [node])
    return v

/-- The walk ends with `a`, and on the way no visitor was told that a name is not in the
schema. -/
def Unhindered {α : Type} (walk : StateT (List (Except Fault (Node β))) (Except Fault) α)
    (a : α) : Prop :=
  ∀ noted, ∃ told, walk.run noted = .ok (a, noted ++ told) ∧
    ∀ path name, .error (.notInSchema path name) ∉ told

theorem unhindered_pure {α : Type} (a : α) : Unhindered (β := β) (pure a) a :=
  fun noted => ⟨[], by rw [List.append_nil]; rfl, fun _ _ => List.not_mem_nil⟩

theorem Unhindered.bind {α γ : Type}
    {walk : StateT (List (Except Fault (Node β))) (Except Fault) α}
    {rest : α → StateT (List (Except Fault (Node β))) (Except Fault) γ} {a : α} {c : γ}
    (hwalk : Unhindered walk a) (hrest : Unhindered (rest a) c) :
    Unhindered (walk >>= rest) c := by
  intro noted
  obtain ⟨told, hrun, htold⟩ := hwalk noted
  obtain ⟨told', hrun', htold'⟩ := hrest (noted ++ told)
  refine ⟨told ++ told', ?_, fun path name h => ?_⟩
  · rw [StateT.run_bind, hrun, ← List.append_assoc]
    exact hrun'
  · rcases List.mem_append.mp h with h | h
    · exact htold path name h
    · exact htold' path name h

/-- Only at names that are not in the schema is a visitor told so. -/
theorem unhindered_watching {position : Position β} (h : position ≠ .undeclared) (path : Path)
    (v : Value) : Unhindered (watching path (position.node path) v) v := by
  refine fun noted => ⟨[position.node path], rfl, fun missing name hmem => ?_⟩
  have heq := List.mem_singleton.mp hmem
  cases position with
  | undeclared => exact h rfl
  | described n => cases heq
  | atomic type => cases heq

namespace Position

section

variable {walk : Path → Position β → Value →
    StateT (List (Except Fault (Node β))) (Except Fault) Value}
  (hwalk : ∀ path position x, Fits position x → Unhindered (walk path position x) x)

include hwalk

theorem unhindered_walkItems {child : Nat → Value → Child β} {path : Path} {xs : List Value}
    (h : ∀ x ∈ xs, ∀ i, (child i x).position.Fits x) (i : Nat) :
    Unhindered (walkItems walk path child i xs) xs := by
  induction xs generalizing i with
  | nil => exact unhindered_pure []
  | cons x xs ih =>
    refine (hwalk _ _ x (h x List.mem_cons_self i)).bind ?_
    refine (ih (fun y hy => h y (List.mem_cons_of_mem _ hy)) (i + 1)).bind ?_
    exact unhindered_pure _

theorem unhindered_walkEntries {child : String → Child β} {path : Path}
    {es : List (String × Value)} (h : ∀ e ∈ es, (child e.1).position.Fits e.2) :
    Unhindered (walkEntries walk path child es) es := by
  induction es with
  | nil => exact unhindered_pure []
  | cons e es ih =>
    refine (hwalk _ _ e.2 (h e List.mem_cons_self)).bind ?_
    refine (ih (fun f hf => h f (List.mem_cons_of_mem _ hf))).bind ?_
    exact unhindered_pure _

theorem Fits.unhindered_walkBelow (h : position.Fits v) (path : Path) :
    Unhindered (walkBelow walk path position v) v := by
  cases h with
  | atom hd ha hk =>
    cases v
    case list | map => cases ha
    case null | unknown => exact unhindered_pure _
    all_goals
      simp only [walkBelow, walkBelow.mismatch, hk rfl]
      exact unhindered_pure _
  | list hd hc hitems =>
    simp only [walkBelow, hc]
    exact (unhindered_walkItems hwalk hitems 0).bind (unhindered_pure _)
  | map hd hc hentries =>
    simp only [walkBelow, hc]
    exact (unhindered_walkEntries hwalk hentries).bind (unhindered_pure _)

end

theorem Fits.unhindered_walkLevels (order : WalkOrder) (levels : Nat) (h : position.Fits v)
    (path : Path) : Unhindered (walkLevels order watching levels path position v) v := by
  induction levels generalizing path position v with
  | zero => exact unhindered_pure v
  | succ levels ih =>
    have hbelow := h.unhindered_walkBelow (fun path position x hx => ih hx path) path
    have hhere := unhindered_watching h.declared path v
    cases order with
    | topDown => exact hhere.bind hbelow
    | bottomUp => exact hbelow.bind hhere

end Position

/-- The value fits the schema. -/
def Schema.Fits (s : Schema β) (v : Value) : Prop := (Position.described (.block s.root)).Fits v

variable {s : Schema β} {v : Value}

theorem Schema.Fits.exists_transform {visit : Visit β (Except Fault)}
    (hvisit : Position.KeptFitting visit) (h : s.Fits v) :
    ∃ w, s.transform .topDown visit v = .ok w ∧ s.Fits w :=
  hvisit.exists_walkLevels _ .root _ v h

theorem Schema.Fits.unhindered_transform (h : s.Fits v) (order : WalkOrder) :
    Unhindered (s.transform order watching v) v :=
  Position.Fits.unhindered_walkLevels order _ h .root

theorem keptFitting_filling : Position.KeptFitting (filling (β := β)) :=
  fun path _ _ h => ⟨_, rfl, h.fillNode path⟩

/-- What fits can be filled out, and fits then. -/
theorem Schema.Fits.exists_fillAbsent (h : s.Fits v) :
    ∃ filled, s.fillAbsent v = .ok filled ∧ s.Fits filled :=
  h.exists_transform keptFitting_filling

end ProviderKit
