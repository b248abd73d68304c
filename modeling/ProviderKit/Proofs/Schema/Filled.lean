import ProviderKit.Proofs.Schema.Rebuilt
import ProviderKit.Proofs.Value.Keeps
import ProviderKit.Schema.FillAbsent

-- Filling out a value adds null entries and nothing else, and once a value is filled out
-- it stays as it is.

namespace ProviderKit

variable {β : Type}

/-! ## Names -/

namespace Keyed

theorem get?_insertNew (es : Keyed Value) (name k : String) (v : Value) :
    get? (insertNew es name v) k = (get? es k).or (if k = name then some v else none) := by
  unfold insertNew
  cases hn : get? es name with
  | some w =>
    by_cases hk : k = name
    · rw [hk, hn]; rfl
    · rw [if_neg hk, Option.or_none]
  | none =>
    by_cases hk : k = name
    · rw [hk, hn, if_pos rfl]
      exact get?_insert_self es name v
    · rw [if_neg hk, Option.or_none]
      exact get?_insert_of_ne es v hk

theorem mem_insertNew {es : Keyed Value} {name : String} {v : Value} {e : String × Value}
    (h : e ∈ insertNew es name v) : e = (name, v) ∨ e ∈ es := by
  unfold insertNew at h
  split at h
  · exact .inr h
  · exact mem_insert h

theorem Ascending.insertNew {es : Keyed Value} (h : Ascending es) (name : String) (v : Value) :
    Ascending (insertNew es name v) := by
  unfold Keyed.insertNew
  split
  · exact h
  · exact h.insert name v

end Keyed

theorem get?_fillNames (names : List String) (es : Keyed Value) (k : String) :
    Keyed.get? (fillNames names es) k =
      (Keyed.get? es k).or (if k ∈ names then some .null else none) := by
  unfold fillNames
  induction names generalizing es with
  | nil => simp
  | cons name names ih =>
    rw [List.foldl_cons, ih, Keyed.get?_insertNew, Option.or_assoc]
    by_cases hk : k = name
    · simp [hk]
    · simp [hk]

theorem mem_fillNames {names : List String} {es : Keyed Value} {e : String × Value}
    (h : e ∈ fillNames names es) : e.2 = .null ∨ e ∈ es := by
  unfold fillNames at h
  induction names generalizing es with
  | nil => exact .inr h
  | cons name names ih =>
    rcases ih h with h | h
    · exact .inl h
    · rcases Keyed.mem_insertNew h with h | h
      · exact .inl (by rw [h])
      · exact .inr h

theorem Keyed.Ascending.fillNames {es : Keyed Value} (h : Keyed.Ascending es)
    (names : List String) : Keyed.Ascending (fillNames names es) := by
  unfold ProviderKit.fillNames
  induction names generalizing es with
  | nil => exact h
  | cons name names ih => exact ih (h.insertNew name .null)

/-- Names that have entries are left alone. -/
theorem fillNames_of_present {names : List String} {es : Keyed Value}
    (h : ∀ name ∈ names, ∃ v, Keyed.get? es name = some v) : fillNames names es = es := by
  unfold fillNames
  induction names with
  | nil => rfl
  | cons name names ih =>
    obtain ⟨v, hv⟩ := h name List.mem_cons_self
    rw [List.foldl_cons, Keyed.insertNew, hv]
    exact ih (fun name hname => h name (List.mem_cons_of_mem _ hname))

/-! ## Depth -/

theorem Value.entriesDepth_le_iff {es : List (String × Value)} {n : Nat} :
    entriesDepth es ≤ n ↔ ∀ e ∈ es, e.2.depth ≤ n := by
  induction es with
  | nil => simp [entriesDepth]
  | cons e es ih =>
    rw [entriesDepth, Nat.max_le, ih]
    simp

theorem Value.entriesDepth_fillNames_le (names : List String) (es : Keyed Value) :
    entriesDepth (fillNames names es) ≤ entriesDepth es := by
  rw [entriesDepth_le_iff]
  intro e he
  rcases mem_fillNames he with h | h
  · rw [h]
    exact Nat.zero_le _
  · exact depth_le_entriesDepth h

/-- The names that a node gives an entry in a map. -/
def Node.names (n : Node β) : List String :=
  match n.view with
  | .object attributes blocks => Keyed.keys attributes ++ Keyed.keys blocks
  | _ => []

theorem fillNode_map (n : Node β) (es : List (String × Value)) :
    fillNode (.ok n) (.map es) = .map (fillNames n.names es) := by
  simp only [fillNode, Node.names]
  cases n.view <;> rfl

theorem fillNode_of_error (fault : Fault) (v : Value) :
    fillNode (.error fault : Except Fault (Node β)) v = v := by
  unfold fillNode
  cases v <;> rfl

theorem fillNode_of_not_map (node : Except Fault (Node β)) {v : Value}
    (h : v.asEntries? = none) : fillNode node v = v := by
  cases v
  case map es => cases h
  all_goals rfl

theorem fillNode_of_atom (node : Except Fault (Node β)) {v : Value} (h : v.isAtom = true) :
    fillNode node v = v := by
  refine fillNode_of_not_map node ?_
  cases v
  case map es => cases h
  all_goals rfl

/-- Entries after null entries were added for names that had none. -/
structure FilledEntries (es fs : Keyed Value) : Prop where
  mem : ∀ e ∈ fs, e.2 = .null ∨ e ∈ es
  get?_of_some : ∀ {k x}, Keyed.get? es k = some x → Keyed.get? fs k = some x
  eq_null : ∀ {k x}, Keyed.get? es k = none → Keyed.get? fs k = some x → x = .null

theorem filledEntries_fillNames (names : List String) (es : Keyed Value) :
    FilledEntries es (fillNames names es) := by
  refine ⟨fun e he => mem_fillNames he, fun {k x} hx => ?_, fun {k x} hk hx => ?_⟩
  · rw [get?_fillNames, hx]
    rfl
  · rw [get?_fillNames, hk, Option.none_or] at hx
    split at hx <;> cases hx
    rfl

theorem fillNode_map_of_node (node : Except Fault (Node β)) (es : List (String × Value)) :
    ∃ fs, fillNode node (.map es) = .map fs ∧ FilledEntries es fs := by
  cases node with
  | ok n => exact ⟨_, fillNode_map n es, filledEntries_fillNames n.names es⟩
  | error fault =>
    refine ⟨es, fillNode_of_error _ _, fun e he => .inr he, id, fun hk hx => ?_⟩
    rw [hk] at hx
    cases hx

theorem depth_fillNode_le (node : Except Fault (Node β)) (v : Value) :
    (fillNode node v).depth ≤ v.depth := by
  cases node with
  | error fault => exact Nat.le_of_eq (congrArg Value.depth (fillNode_of_error fault v))
  | ok n =>
    cases hv : v.asEntries? with
    | none => exact Nat.le_of_eq (congrArg Value.depth (fillNode_of_not_map _ hv))
    | some es =>
      cases v <;> cases hv
      rw [fillNode_map]
      have := Value.entriesDepth_fillNames_le n.names es
      simp only [Value.depth]
      omega

/-! ## The walk -/

/-- The visitor that fills objects out. -/
def filling : Visit β (Except Fault) := fun _ node v => .ok (fillNode node v)

theorem grows_filling : Grows (filling (β := β)) (fun _ => 0) (fun _ => 0) :=
  Grows.of_depth_le (fun _ _ v u hu => by cases hu; exact depth_fillNode_le _ v)

theorem fillAbsent_eq_ok_iff {s : Schema β} {v w : Value} :
    s.fillAbsent v = .ok w ↔ Rebuilds filling .root (.described (.block s.root)) v w :=
  transform_eq_ok_iff grows_filling (Nat.le_refl 0)

section

variable {path : Path} {position : Position β}

/-- What was filled out has an entry for every name. -/
theorem fillNode_of_rebuilds {v w : Value} (h : Rebuilds filling path position v w) (path' : Path) :
    fillNode (position.node path') w = w := by
  cases w
  case map fs =>
    cases position with
    | described n =>
      obtain ⟨u, hu, hbelow⟩ := h
      obtain ⟨es, child, rfl, hc, hentries⟩ := rebuildsBelow_map_iff.mp hbelow
      simp only [Position.node, fillNode_map, Value.map.injEq]
      refine fillNames_of_present (fun name hname => ?_)
      cases hv : v.asEntries? with
      | none =>
        have hmap := Except.ok.inj hu
        rw [fillNode_of_not_map _ hv] at hmap
        rw [hmap] at hv
        cases hv
      | some es' =>
        cases v <;> cases hv
        simp only [filling, Position.node, fillNode_map, Except.ok.injEq, Value.map.injEq] at hu
        have hpresent : Keyed.get? es name = (Keyed.get? es' name).or (some .null) := by
          rw [← hu, get?_fillNames, if_pos hname]
        have hrel := hentries.get? name
        rw [hpresent] at hrel
        cases he : Keyed.get? es' name <;> rw [he] at hrel
        all_goals
          obtain ⟨y, hy, _⟩ := exists_of_rel_some_left hrel
          exact ⟨y, hy⟩
    | atomic type => exact fillNode_of_error _ _
    | undeclared => exact fillNode_of_error _ _
  all_goals exact fillNode_of_not_map _ rfl

theorem hereditary_true : Position.Hereditary (fun _ : Position β => True) :=
  ⟨fun _ _ _ => trivial, fun _ _ _ _ => trivial⟩

theorem Rebuilds.filled_again {v w : Value} (h : Rebuilds filling path position v w)
    (path' : Path) : Rebuilds filling path' position w w :=
  h.again hereditary_true
    (fun path' _ h => congrArg Except.ok (fillNode_of_rebuilds h path')) trivial

end

/-- A map that is filled out has an entry for every name, and its entries are filled out. -/
theorem rebuilds_filling_self_iff {path : Path} {n : Node β} {es : Keyed Value} :
    Rebuilds filling path (.described n) (.map es) (.map es) ↔
      (∀ name ∈ n.names, ∃ v, Keyed.get? es name = some v) ∧
        ∃ child, (Position.described n).entryChild = some child ∧ ∀ e ∈ es,
          Rebuilds filling (path.push (child e.1).step) (child e.1).position e.2 e.2 := by
  constructor
  · intro h
    have hfilled := fillNode_of_rebuilds h path
    rw [Position.node, fillNode_map, Value.map.injEq] at hfilled
    refine ⟨fun name hname => ?_, ?_⟩
    · have hget := get?_fillNames n.names es name
      rw [hfilled, if_pos hname] at hget
      cases hv : Keyed.get? es name with
      | none =>
        rw [hv] at hget
        cases hget
      | some v => exact ⟨v, rfl⟩
    · obtain ⟨u, hu, hbelow⟩ := h
      rw [filling, Position.node, fillNode_map, hfilled] at hu
      cases hu
      obtain ⟨_, child, hes, hc, hentries⟩ := rebuildsBelow_map_iff.mp hbelow
      cases hes
      exact ⟨child, hc, rebuildsEntries_self_iff.mp hentries⟩
  · rintro ⟨hnames, child, hc, hentries⟩
    refine ⟨.map es, ?_, rebuildsBelow_map_iff.mpr
      ⟨es, child, rfl, hc, rebuildsEntries_self_iff.mpr hentries⟩⟩
    rw [filling, Position.node, fillNode_map, fillNames_of_present hnames]

/-- Where nothing is held, nothing is filled out. -/
theorem Rebuilds.eq_of_filled_atom {path : Path} {position : Position β} {v w : Value}
    (h : Rebuilds filling path position v w) (hv : v.isAtom = true) : w = v := by
  refine h.eq_of_visit_atom hv (fun u hu => ?_)
  rw [filling, fillNode_of_atom _ hv] at hu
  exact (Except.ok.inj hu).symm

theorem rebuilds_filling_null (path : Path) (position : Position β) :
    Rebuilds filling path position .null .null :=
  ⟨.null, congrArg Except.ok (fillNode_of_atom _ rfl),
    (rebuildsBelow_atom_iff rfl).mpr ⟨rfl, fun h => by cases h⟩⟩

/-! ## What has a shape can be filled out -/

/-- The visitor that changes nothing. -/
def checking : Visit β (Except Fault) := fun _ _ v => .ok v

theorem Rebuilds.exists_filled {path : Path} {position : Position β} {v w : Value}
    (h : Rebuilds checking path position v w) (path' : Path) :
    ∃ u, Rebuilds filling path' position v u := by
  induction v using Value.contentsInduction generalizing path path' position w with
  | atom v hv =>
    obtain ⟨u, hu, hbelow⟩ := h
    cases hu
    obtain ⟨_, hdemand⟩ := (rebuildsBelow_of_atom_iff hv).mp hbelow
    exact ⟨v, v, congrArg Except.ok (fillNode_of_atom _ hv),
      (rebuildsBelow_of_atom_iff hv).mpr ⟨rfl, hdemand⟩⟩
  | list xs ih =>
    obtain ⟨u, hu, hbelow⟩ := h
    cases hu
    obtain ⟨ys, child, rfl, hc, hitems⟩ := rebuildsBelow_of_list_iff.mp hbelow
    have hfilled : ∀ x ∈ xs, ∀ i, ∃ y,
        Rebuilds filling (path'.push (child i x).step) (child i x).position x y := by
      intro x hx i
      obtain ⟨j, y, hy⟩ := hitems.exists_of_mem hx
      rw [Position.itemChild_position hc j i x x] at hy
      exact ih x hx hy _
    obtain ⟨zs, hzs⟩ := exists_rebuildsItems hfilled 0
    refine ⟨.list zs, .list xs, congrArg Except.ok (fillNode_of_not_map _ rfl), ?_⟩
    exact rebuildsBelow_of_list_iff.mpr ⟨zs, child, rfl, hc, hzs⟩
  | map es ih =>
    obtain ⟨u, hu, hbelow⟩ := h
    cases hu
    obtain ⟨fs, child, rfl, hc, hentries⟩ := rebuildsBelow_of_map_iff.mp hbelow
    obtain ⟨es', hes', hmap⟩ := fillNode_map_of_node (position.node path') es
    have hfilled : ∀ e ∈ es', ∃ y,
        Rebuilds filling (path'.push (child e.1).step) (child e.1).position e.2 y := by
      intro e he
      rcases hmap.mem e he with hnull | he
      · rw [hnull]
        exact ⟨.null, rebuilds_filling_null _ _⟩
      · obtain ⟨y, hy⟩ := hentries.exists_of_mem he
        exact ih e he hy _
    obtain ⟨gs, hgs⟩ := exists_rebuildsEntries hfilled
    exact ⟨.map gs, .map es', congrArg Except.ok hes',
      rebuildsBelow_of_map_iff.mpr ⟨gs, child, rfl, hc, hgs⟩⟩

/-- A value of the right shape can be filled out. -/
theorem exists_fillAbsent_of_checkShape {s : Schema β} {v : Value}
    (h : s.checkShape v = .ok ()) : ∃ w, s.fillAbsent v = .ok w := by
  unfold Schema.checkShape at h
  rw [bind_eq_ok_iff] at h
  obtain ⟨w, hw, _⟩ := h
  have hg : Grows (checking (β := β)) (fun _ => 0) (fun _ => 0) :=
    Grows.of_depth_le (fun _ _ v u hu => by cases hu; exact Nat.le_refl _)
  obtain ⟨u, hu⟩ := ((transform_eq_ok_iff hg (Nat.le_refl 0)).mp hw).exists_filled .root
  exact ⟨u, fillAbsent_eq_ok_iff.mpr hu⟩

/-! ## What is kept -/

/-- Filling out adds null entries and nothing else. -/
theorem Rebuilds.padded_of_filled {path : Path} {position : Position β} {v w : Value}
    (h : Rebuilds filling path position v w) : v.Padded w := by
  induction v using Value.contentsInduction generalizing path position w with
  | atom v hv =>
    rw [h.eq_of_filled_atom hv]
    exact .refl v
  | list xs ih =>
    obtain ⟨u, hu, hbelow⟩ := h
    rw [filling, fillNode_of_not_map _ rfl] at hu
    cases hu
    obtain ⟨ys, child, rfl, hc, hitems⟩ := rebuildsBelow_of_list_iff.mp hbelow
    refine .list hitems.length_eq (fun i x y hx hy => ?_)
    have hrel := hitems.getElem? i
    rw [hx, hy] at hrel
    cases hrel with
    | some hrel => exact ih x (List.mem_of_getElem? hx) hrel
  | map es ih =>
    obtain ⟨u, hu, hbelow⟩ := h
    obtain ⟨es', hes', hfilled⟩ := fillNode_map_of_node (position.node path) es
    rw [filling, hes'] at hu
    cases hu
    obtain ⟨fs, child, rfl, hc, hentries⟩ := rebuildsBelow_of_map_iff.mp hbelow
    refine .map (fun k x hx => ?_) (fun k x y hx hy => ?_) (fun k y hx hy => ?_)
    · have hrel := hentries.get? k
      rw [hfilled.get?_of_some hx] at hrel
      obtain ⟨y, hy, _⟩ := exists_of_rel_some_left hrel
      exact ⟨y, hy⟩
    · have hrel := hentries.get? k
      rw [hfilled.get?_of_some hx, hy] at hrel
      cases hrel with
      | some hrel => exact ih (k, x) (Keyed.mem_of_get? hx) hrel
    · have hrel := hentries.get? k
      rw [hy] at hrel
      obtain ⟨x, hx', hrel⟩ := exists_of_rel_some_right hrel
      rw [hfilled.eq_null hx hx'] at hrel
      exact hrel.eq_of_filled_atom rfl

theorem keeps_of_fillAbsent {s : Schema β} {v w : Value} (h : s.fillAbsent v = .ok w) :
    v.Keeps w := (fillAbsent_eq_ok_iff.mp h).padded_of_filled.keeps

/-- Filling out twice is filling out once. -/
theorem fillAbsent_idempotent {s : Schema β} {v w : Value} (h : s.fillAbsent v = .ok w) :
    s.fillAbsent w = .ok w :=
  fillAbsent_eq_ok_iff.mpr ((fillAbsent_eq_ok_iff.mp h).filled_again .root)

end ProviderKit
