import ProviderKit.Proofs.Keyed
import ProviderKit.Proofs.Schema.Places
import ProviderKit.Schema.Build

-- Filling out completes a value and does no more. What it adds are null entries under names that
-- the schema declares; no declared name is left out; and values that differ in such entries only
-- are filled out alike.

namespace ProviderKit

variable {β : Type}

/-! ## Names that are declared -/

/-- At a place of the value, the schema declares a name. -/
def Schema.DeclaresAt (s : Schema β) (v : Value) (place : List Branch) (k : String) : Prop :=
  ∃ (path : Path) (n : Node β), v.Spells place path.steps ∧ s.nodeAt path = .ok n ∧ k ∈ n.names

/-- The second value is the first one with null entries added to its objects, under names that the
schema declares there. -/
structure Schema.Supplements (s : Schema β) (v w : Value) : Prop where
  padded : v.Padded w
  declared : ∀ place es k, v.at? place = some (.map es) → Keyed.get? es k = none →
    (w.at? (place ++ [.entry k])).isSome = true → s.DeclaresAt w place k

namespace Position

variable {position : Position β}

/-- The names that a position gives an entry in a map. -/
def names : Position β → List String
  | .described n => n.names
  | .atomic _ | .undeclared => []

theorem fillNode_map (position : Position β) (path : Path) (es : Keyed Value) :
    fillNode (position.node path) (.map es) = .map (fillNames position.names es) := by
  cases position with
  | described n => exact ProviderKit.fillNode_map n es
  | atomic type => exact fillNode_of_error _ _
  | undeclared => exact fillNode_of_error _ _

/-- One value supplements another, where both are at a position. -/
structure Supplements (position : Position β) (v w : Value) : Prop where
  padded : v.Padded w
  declared : ∀ place es k, v.at? place = some (.map es) → Keyed.get? es k = none →
    (w.at? (place ++ [.entry k])).isSome = true → ∃ p, position.at? w place = some p ∧ k ∈ p.names

end Position

theorem Schema.declaresAt_iff {s : Schema β} {v : Value} {place : List Branch} {k : String} :
    s.DeclaresAt v place k ↔
      ∃ p, (Position.described (.block s.root)).at? v place = some p ∧ k ∈ p.names := by
  constructor
  · rintro ⟨path, n, hspells, hn, hk⟩
    exact ⟨.described n, Schema.at?_eq_described_iff.mpr ⟨path, hspells, hn⟩, hk⟩
  · rintro ⟨p, hp, hk⟩
    cases p with
    | described n =>
      obtain ⟨path, hspells, hn⟩ := Schema.at?_eq_described_iff.mp hp
      exact ⟨path, n, hspells, hn, hk⟩
    | atomic type => cases hk
    | undeclared => cases hk

theorem Schema.supplements_iff {s : Schema β} {v w : Value} :
    s.Supplements v w ↔ (Position.described (.block s.root)).Supplements v w := by
  constructor
  · rintro ⟨hpadded, hdeclared⟩
    refine ⟨hpadded, fun place es k hes hk hw => ?_⟩
    exact Schema.declaresAt_iff.mp (hdeclared place es k hes hk hw)
  · rintro ⟨hpadded, hdeclared⟩
    refine ⟨hpadded, fun place es k hes hk hw => ?_⟩
    exact Schema.declaresAt_iff.mpr (hdeclared place es k hes hk hw)

/-! ## Parts of what is padded -/

namespace Value

variable {v w x y : Value} {b : Branch}

theorem Padded.part (h : v.Padded w) (hx : v.part? b = some x) (hy : w.part? b = some y) :
    x.Padded y := by
  cases h with
  | atom hv =>
    rw [part?_of_atom hv] at hx
    cases hx
  | list _ h =>
    cases b with
    | entry k => cases hx
    | item i => exact h i x y hx hy
  | map _ h _ =>
    cases b with
    | entry k => exact h k x y hx hy
    | item i => cases hx

theorem Padded.exists_part (h : v.Padded w) (hx : v.part? b = some x) :
    ∃ y, w.part? b = some y := by
  cases h with
  | atom _ => exact ⟨x, hx⟩
  | @list xs ys hlength _ =>
    cases b with
    | entry k => cases hx
    | item i =>
      obtain ⟨hi, _⟩ := List.getElem?_eq_some_iff.mp hx
      exact ⟨ys[i], List.getElem?_eq_getElem (hlength ▸ hi)⟩
  | map h _ _ =>
    cases b with
    | entry k => exact h k x hx
    | item i => cases hx

theorem Padded.eq_null (h : v.Padded w) (hx : v.part? b = none) (hy : w.part? b = some y) :
    y = .null := by
  cases h with
  | atom hv =>
    rw [hx] at hy
    cases hy
  | @list xs ys hlength _ =>
    cases b with
    | entry k => cases hy
    | item i =>
      have hxs := List.getElem?_eq_none_iff.mp hx
      obtain ⟨hi, _⟩ := List.getElem?_eq_some_iff.mp hy
      omega
  | map _ _ h =>
    cases b with
    | entry k => exact h k y hx hy
    | item i => cases hy

/-- Maps have one outline where they have the same keys. -/
theorem outline_map_eq {es fs : Keyed Value} (hes : Keyed.Ascending es) (hfs : Keyed.Ascending fs)
    (h : ∀ k, (Keyed.get? es k).isSome = (Keyed.get? fs k).isSome) :
    (map es).outline = (map fs).outline := by
  have hkeys : Keyed.mapValues (fun _ => Value.null) es = Keyed.mapValues (fun _ => .null) fs := by
    refine Keyed.eq_of_get?_eq (Keyed.ascending_mapValues _ hes) (Keyed.ascending_mapValues _ hfs)
      fun k => ?_
    have hk := h k
    rw [Keyed.get?_mapValues, Keyed.get?_mapValues]
    cases hx : Keyed.get? es k <;> cases hy : Keyed.get? fs k <;> simp [hx, hy] at hk ⊢
  exact congrArg map hkeys

end Value

/-- A part that is there stays when an object is filled out. -/
theorem part?_fillNode (node : Except Fault (Node β)) {v x : Value} {b : Branch}
    (hx : v.part? b = some x) : (fillNode node v).part? b = some x := by
  cases v
  case map es =>
    obtain ⟨fs, hfs, hfilled⟩ := fillNode_map_of_node node es
    rw [hfs]
    cases b with
    | entry k => exact hfilled.get?_of_some hx
    | item i => cases hx
  all_goals
    rw [fillNode_of_not_map node rfl]
    exact hx

/-- A part that comes along when an object is filled out is null. -/
theorem eq_null_of_part?_fillNode {node : Except Fault (Node β)} {v x : Value} {b : Branch}
    (hv : v.part? b = none) (hx : (fillNode node v).part? b = some x) : x = .null := by
  cases v
  case map es =>
    obtain ⟨fs, hfs, hfilled⟩ := fillNode_map_of_node node es
    rw [hfs] at hx
    cases b with
    | entry k => exact hfilled.eq_null hv hx
    | item i => cases hx
  all_goals
    rw [fillNode_of_not_map node rfl, hv] at hx
    cases hx

section

variable {path : Path} {position : Position β} {v w x y f : Value} {b : Branch}

/-! ## What is added is declared -/

/-- Filling out adds nothing but null entries under declared names. -/
theorem Rebuilds.supplements (h : Rebuilds filling path position v f) :
    position.Supplements v f := by
  refine ⟨h.padded_of_filled, fun place es k hes hk hf => ?_⟩
  induction place generalizing path position v f with
  | nil =>
    cases hes
    obtain ⟨u, hu, hbelow⟩ := h
    rw [filling, Position.fillNode_map] at hu
    cases hu
    obtain ⟨y, hy⟩ := Option.isSome_iff_exists.mp hf
    rw [List.nil_append, Value.at?, Option.bind_eq_some_iff] at hy
    obtain ⟨y, hy, _⟩ := hy
    have hrel := hbelow.part? (.entry k)
    rw [hy] at hrel
    obtain ⟨x, hx, _⟩ := exists_of_rel_some_right hrel
    rw [Value.part?, get?_fillNames, hk, Option.none_or] at hx
    split at hx
    · next hname => exact ⟨position, rfl, hname⟩
    · cases hx
  | cons b place ih =>
    rw [Value.at?, Option.bind_eq_some_iff] at hes
    obtain ⟨x, hx, hes⟩ := hes
    rw [List.cons_append, Value.at?] at hf
    obtain ⟨u, hu, hbelow⟩ := h
    cases hu
    have hrel := hbelow.part? b
    rw [part?_fillNode _ hx] at hrel
    obtain ⟨y, hy, c, hc, hrebuilds⟩ := exists_of_rel_some_left hrel
    rw [hy, Option.bind_some] at hf
    obtain ⟨p, hp, hname⟩ := ih hrebuilds hes hf
    obtain ⟨d, hd, hposition, _⟩ := Position.exists_child?_of_child? hc y
    refine ⟨p, ?_, hname⟩
    rw [Position.at?, hy, Option.bind_some, hd, Option.bind_some, hposition]
    exact hp

/-! ## Nothing declared is left out -/

/-- What is filled out is filled out at every place. -/
theorem Rebuilds.filled_at? {place : List Branch} {p : Position β}
    (h : Rebuilds filling path position f f) (hx : f.at? place = some x)
    (hp : position.at? f place = some p) : ∃ path', Rebuilds filling path' p x x := by
  induction place generalizing path position f with
  | nil =>
    cases hx
    cases hp
    exact ⟨path, h⟩
  | cons b place ih =>
    rw [Value.at?, Option.bind_eq_some_iff] at hx
    obtain ⟨y, hy, hx⟩ := hx
    rw [Position.at?, hy, Option.bind_some, Option.bind_eq_some_iff] at hp
    obtain ⟨c, hc, hp⟩ := hp
    obtain ⟨u, hu, hbelow⟩ := id h
    rw [filling, fillNode_of_rebuilds h] at hu
    cases hu
    have hrel := hbelow.part? b
    rw [hy] at hrel
    cases hrel with
    | some hrebuilds =>
      obtain ⟨d, hd, hrebuilds⟩ := hrebuilds
      rw [hc] at hd
      cases hd
      exact ih hrebuilds hx hp

/-- An object that is filled out, and known, is a map with an entry for every declared name. -/
theorem exists_entries_of_rebuilds {n : Node β} {attributes : List (String × Attribute β)}
    {blocks : List (String × NestedBlock β)} (h : Rebuilds filling path (.described n) x x)
    (hn : n.view = .object attributes blocks) (hx : x.isKnown = true) :
    ∃ es, x = .map es ∧ ∀ name ∈ n.names, ∃ y, Keyed.get? es name = some y := by
  obtain ⟨u, hu, hbelow⟩ := id h
  cases x
  case map es => exact ⟨es, rfl, (rebuilds_filling_self_iff.mp h).1⟩
  case list xs =>
    obtain ⟨_, child, _, hc, _⟩ := rebuildsBelow_list_iff.mp hbelow
    simp [Position.itemChild, hn] at hc
  all_goals
    obtain ⟨_, hdemand⟩ := (rebuildsBelow_atom_iff rfl).mp hbelow
    have hnone := hdemand hx
    simp [Position.demand, hn] at hnone

/-! ## What is left out makes no difference -/

theorem Position.Supplements.part {c : Position.Child β} (h : position.Supplements v w)
    (hx : v.part? b = some x) (hy : w.part? b = some y) (hc : position.child? y b = some c) :
    c.position.Supplements x y := by
  refine ⟨h.padded.part hx hy, fun place es k hes hk hsome => ?_⟩
  obtain ⟨p, hp, hname⟩ := h.declared (b :: place) es k (by rw [Value.at?, hx]; exact hes) hk
    (by rw [List.cons_append, Value.at?, hy]; exact hsome)
  rw [Position.at?, hy, Option.bind_some, hc, Option.bind_some] at hp
  exact ⟨p, hp, hname⟩

/-- Under every key, the one map is filled out exactly where the other one is. -/
theorem Position.Supplements.isSome_get?_fillNames {es fs : Keyed Value}
    (h : position.Supplements (.map es) (.map fs)) (k : String) :
    (Keyed.get? (fillNames position.names es) k).isSome =
      (Keyed.get? (fillNames position.names fs) k).isSome := by
  rw [get?_fillNames, get?_fillNames]
  by_cases hk : k ∈ position.names
  · simp [hk]
  · rw [if_neg hk, Option.or_none, Option.or_none]
    cases hes : Keyed.get? es k with
    | some x =>
      obtain ⟨y, hy⟩ := h.padded.exists_part (b := .entry k) hes
      rw [show Keyed.get? fs k = some y from hy]
      rfl
    | none =>
      cases hfs : Keyed.get? fs k with
      | none => rfl
      | some y =>
        have hsome : ((Value.map fs).at? ([] ++ [.entry k])).isSome = true := by
          simp [Value.at?, Value.part?, hfs]
        obtain ⟨p, hp, hname⟩ := h.declared [] es k rfl hes hsome
        cases hp
        exact absurd hname hk

/-- Filled out, a value has the same keys as one that supplements it. -/
theorem Position.Supplements.outline_eq (h : position.Supplements v w) (hv : v.Ordered)
    (hw : w.Ordered) (path path' : Path) : (fillNode (position.node path) w).outline =
      (fillNode (position.node path') v).outline := by
  obtain ⟨hpadded, _⟩ := id h
  cases hpadded with
  | atom hatom => rw [fillNode_of_atom _ hatom, fillNode_of_atom _ hatom]
  | list hlength _ =>
    rw [fillNode_of_not_map _ rfl, fillNode_of_not_map _ rfl]
    simp [Value.outline, List.map_const', hlength]
  | @map es fs _ _ _ =>
    rw [position.fillNode_map, position.fillNode_map]
    exact Value.outline_map_eq (hw.ascending.fillNames _) (hv.ascending.fillNames _)
      fun k => (h.isSome_get?_fillNames k).symm

/-- Values are filled out alike where one supplements the other. -/
theorem Rebuilds.of_supplements (h : Rebuilds filling path position w f)
    (hs : position.Supplements v w) (hv : v.Ordered) (hw : w.Ordered) (path' : Path) :
    Rebuilds filling path' position v f := by
  induction v using Value.partsInduction generalizing path path' position w f with
  | parts v ih =>
    have hf : f.Ordered := h.ordered (fun hv hu => by cases hu; exact ordered_fillNode _ hv) hw
    obtain ⟨u, hu, hbelow⟩ := h
    cases hu
    refine ⟨fillNode (position.node path') v, rfl, hbelow.of_parts (ordered_fillNode _ hv) hf ?_ ?_⟩
    · rw [hbelow.outline_eq]
      exact hs.outline_eq hv hw path path'
    · intro b x y hx hy
      have hrel := hbelow.part? b
      rw [hy] at hrel
      obtain ⟨z, hz, c, hc, hrebuilds⟩ := exists_of_rel_some_right hrel
      obtain ⟨d, hd, hposition, _⟩ := Position.exists_child?_of_child? hc x
      refine ⟨d, hd, ?_⟩
      rw [hposition]
      cases hvb : v.part? b with
      | some x' =>
        obtain ⟨z', hz'⟩ := hs.padded.exists_part hvb
        rw [part?_fillNode _ hvb] at hx
        rw [part?_fillNode _ hz'] at hz
        cases hx
        cases hz
        exact ih b x hvb hrebuilds (hs.part hvb hz' hc) (hv.part hvb) (hw.part hz') _
      | none =>
        -- The entry is left out of the one value, and left out or null in the other.
        have hzero : z = .null := by
          cases hwb : w.part? b with
          | some z' =>
            rw [part?_fillNode _ hwb] at hz
            cases hz
            exact hs.padded.eq_null hvb hwb
          | none => exact eq_null_of_part?_fillNode hwb hz
        rw [hzero] at hrebuilds
        rw [eq_null_of_part?_fillNode hvb hx, hrebuilds.eq_of_filled_atom rfl]
        exact rebuilds_filling_null _ _

end

/-! ## Whole values -/

/-- Filling out completes a value. What it adds are null entries under names that the schema
declares for the object. Every object that the schema describes, unless it is null or unknown, has
an entry for every declared name. Filling out once more changes nothing, and a value that lacks
some of those null entries is filled out as the same. -/
theorem fillAbsent_completes (s : Schema β) {v f : Value} (hv : v.Ordered)
    (h : s.fillAbsent v = .ok f) :
    s.Supplements v f ∧
    (∀ place (path : Path) n attributes blocks x, f.Spells place path.steps →
      s.nodeAt path = .ok n → n.view = .object attributes blocks → f.at? place = some x →
      x.isKnown = true → ∃ es, x = .map es ∧
        ∀ name ∈ Keyed.keys attributes ++ Keyed.keys blocks, ∃ y, Keyed.get? es name = some y) ∧
    s.fillAbsent f = .ok f ∧
    ∀ v' : Value, v'.Ordered → s.Supplements v' v → s.fillAbsent v' = .ok f := by
  have hrebuilds := fillAbsent_eq_ok_iff.mp h
  refine ⟨Schema.supplements_iff.mpr hrebuilds.supplements, ?_, fillAbsent_idempotent h, ?_⟩
  · intro place path n attributes blocks x hspells hn hobject hx hknown
    have hp := Schema.at?_eq_described_iff.mpr ⟨path, hspells, hn⟩
    obtain ⟨path', hfilled⟩ := (hrebuilds.filled_again .root).filled_at? hx hp
    obtain ⟨es, hes, hnames⟩ := exists_entries_of_rebuilds hfilled hobject hknown
    rw [Node.names, hobject] at hnames
    exact ⟨es, hes, hnames⟩
  · intro v' hv' hsupplements
    exact fillAbsent_eq_ok_iff.mpr
      (hrebuilds.of_supplements (Schema.supplements_iff.mp hsupplements) hv' hv .root)

/-- A map is supplemented by a null entry in front, under a new name that the schema declares. -/
theorem supplements_cons {s : Schema β} {es : Keyed Value} {k : String}
    (hnew : Keyed.get? es k = none) (hk : k ∈ (Node.block s.root).names) :
    s.Supplements (.map es) (.map ((k, .null) :: es)) := by
  have hsame : ∀ l x, Keyed.get? es l = some x → Keyed.get? ((k, .null) :: es) l = some x := by
    intro l x hx
    have hne : k ≠ l := by
      rintro rfl
      rw [hnew] at hx
      cases hx
    rw [Keyed.get?_cons, if_neg hne, hx]
  have hadded : ∀ l y, Keyed.get? es l = none → Keyed.get? ((k, .null) :: es) l = some y →
      l = k ∧ y = .null := by
    intro l y hl hy
    rw [Keyed.get?_cons, hl] at hy
    split at hy <;> cases hy
    exact ⟨Eq.symm ‹k = l›, rfl⟩
  refine ⟨.map (fun l x hx => ⟨x, hsame l x hx⟩) (fun l x y hx hy => ?_)
    (fun l y hl hy => (hadded l y hl hy).2), fun place fs l hfs hl hsome => ?_⟩
  · rw [hsame l x hx] at hy
    cases hy
    exact .refl x
  · cases place with
    | nil =>
      cases hfs
      obtain ⟨y, hy⟩ := Option.isSome_iff_exists.mp hsome
      rw [List.nil_append, Value.at?, Option.bind_eq_some_iff] at hy
      obtain ⟨y, hy, _⟩ := hy
      obtain ⟨rfl, _⟩ := hadded l y hl hy
      exact ⟨.root, .block s.root, rfl, rfl, hk⟩
    | cons b place =>
      -- Below the map, nothing is added.
      cases b with
      | item i => cases hfs
      | entry j =>
        rw [Value.at?, Option.bind_eq_some_iff] at hfs
        obtain ⟨x, hx, hfs⟩ := hfs
        rw [List.cons_append, Value.at?, Value.part?, hsame j x hx, Option.bind_some,
          Value.at?_append, hfs] at hsome
        simp [Value.at?, Value.part?, hl] at hsome

/-- A record with a note, a size and a zone. -/
def recordSchema : PlainSchema :=
  ((Schema.empty.withAttribute "note" .optionalString).withAttribute "size"
    .requiredString).withAttribute "zone" .optionalString

/-- With or without its null note, a record is filled out as the same. -/
theorem fillAbsent_record :
    (Value.map [("note", .null), ("size", .string "2")]).Ordered ∧
    recordSchema.Supplements (.map [("size", .string "2")])
      (.map [("note", .null), ("size", .string "2")]) ∧
    recordSchema.fillAbsent (.map [("size", .string "2")]) =
      .ok (.map [("note", .null), ("size", .string "2"), ("zone", .null)]) := by
  have hordered : (Value.map [("note", .null), ("size", .string "2")]).Ordered :=
    Value.ordered_of_keys (by decide) (by simp)
  have hfilled : recordSchema.fillAbsent (.map [("note", .null), ("size", .string "2")]) =
      .ok (.map [("note", .null), ("size", .string "2"), ("zone", .null)]) := rfl
  have hsupplements : recordSchema.Supplements (.map [("size", .string "2")])
      (.map [("note", .null), ("size", .string "2")]) := supplements_cons rfl (by decide)
  obtain ⟨_, _, _, hsame⟩ := fillAbsent_completes recordSchema hordered hfilled
  exact ⟨hordered, hsupplements, hsame _ (by simp) hsupplements⟩

end ProviderKit
