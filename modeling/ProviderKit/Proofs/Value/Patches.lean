import ProviderKit.Proofs.Keyed
import ProviderKit.Proofs.Schema.Places

-- Values with other values put in at some places. What is put in and where determines the value
-- that comes out, as long as no key stands twice.

namespace ProviderKit.Value

/-- The second value is the first one with the values put in that `R` names, at their places. Where
no value is named for a place or for one above it, the same keys stand, or as many items, or the
same value that holds nothing, or nothing at all. -/
structure Patched (R : List Branch → Value → Prop) (v w : Value) : Prop where
  put : ∀ {place p}, R place p → w.at? place = some p
  kept : ∀ {place}, (∀ above, above <+: place → ∀ p, ¬ R above p) →
    (w.at? place).map outline = (v.at? place).map outline

variable {R : List Branch → Value → Prop} {v w x : Value} {b : Branch}

/-! ## Outlines -/

theorem part?_outline (v : Value) (b : Branch) :
    v.outline.part? b = (v.part? b).map fun _ => .null := by
  cases v with
  | list xs =>
    cases b with
    | entry k => rfl
    | item i => exact List.getElem?_map
  | map es =>
    cases b with
    | item i => rfl
    | entry k => exact Keyed.get?_mapValues (fun _ => Value.null) es k
  | _ => exact (part?_of_atom rfl b).trans (by rw [part?_of_atom rfl b, Option.map_none])

theorem outline_map (es : List (String × Value)) :
    (map es).outline = .map ((Keyed.keys es).map fun k => (k, .null)) := by
  rw [outline, Keyed.keys, List.map_map]
  rfl

/-- In values of one outline the same branches lead somewhere. -/
theorem part?_eq_none_iff (h : w.outline = v.outline) : w.part? b = none ↔ v.part? b = none := by
  have hpart := congrArg (part? · b) h
  simp only [part?_outline] at hpart
  rw [← Option.map_eq_none_iff (f := fun _ => Value.null), hpart, Option.map_eq_none_iff]

/-- Values of one outline are equal if their parts are. -/
theorem eq_of_parts (hv : v.Ordered) (h : w.outline = v.outline) (h' : x.outline = v.outline)
    (hparts : ∀ b, w.part? b = x.part? b) : w = x := by
  cases v with
  | list xs =>
    obtain ⟨ys, rfl, _⟩ := exists_list_of_outline_eq h
    obtain ⟨zs, rfl, _⟩ := exists_list_of_outline_eq h'
    exact congrArg Value.list (List.ext_getElem? fun i => hparts (.item i))
  | map es =>
    obtain ⟨fs, rfl, hfs⟩ := exists_map_of_outline_eq h
    obtain ⟨gs, rfl, hgs⟩ := exists_map_of_outline_eq h'
    have hes := Keyed.ascending_iff_keys.mp hv.ascending
    refine congrArg Value.map (Keyed.eq_of_get?_eq ?_ ?_ fun k => hparts (.entry k))
    · rwa [Keyed.ascending_iff_keys, hfs]
    · rwa [Keyed.ascending_iff_keys, hgs]
  | _ => rw [eq_of_outline_eq_atom rfl h, eq_of_outline_eq_atom rfl h']

/-! ## Putting values in -/

namespace Patched

/-- Where no values are named, nothing changes. -/
theorem of_forall_not (h : ∀ place p, ¬ R place p) (v : Value) : v.Patched R v :=
  ⟨fun hp => absurd hp (h _ _), fun _ => rfl⟩

/-- A value that is put in for the whole stands in its place. -/
theorem of_whole (h : R [] x) (honly : ∀ place p, R place p → place = [] ∧ p = x) (v : Value) :
    v.Patched R x := by
  refine ⟨fun hp => ?_, fun habove => absurd h (habove [] List.nil_prefix x)⟩
  obtain ⟨rfl, rfl⟩ := honly _ _ hp
  rfl

/-- Where none is put in for the whole, values are put in part by part. -/
theorem of_parts (hnot : ∀ p, ¬ R [] p) (houtline : w.outline = v.outline)
    (hnone : ∀ b place p, R (b :: place) p → v.part? b ≠ none)
    (hparts : ∀ b x y, v.part? b = some x → w.part? b = some y →
      x.Patched (fun place => R (b :: place)) y) : v.Patched R w := by
  have hpart {b : Branch} {x : Value} (hx : v.part? b = some x) :
      ∃ y, w.part? b = some y ∧ x.Patched (fun place => R (b :: place)) y := by
    obtain ⟨y, hy⟩ := Option.ne_none_iff_exists'.mp fun hy =>
      Option.some_ne_none x (hx.symm.trans ((part?_eq_none_iff houtline).mp hy))
    exact ⟨y, hy, hparts b x y hx hy⟩
  constructor
  case put =>
    intro place p hp
    cases place with
    | nil => exact absurd hp (hnot p)
    | cons b place =>
      obtain ⟨x, hx⟩ := Option.ne_none_iff_exists'.mp (hnone b place p hp)
      obtain ⟨y, hy, hxy⟩ := hpart hx
      rw [at?, hy]
      exact hxy.put hp
  case kept =>
    intro place habove
    cases place with
    | nil => exact congrArg some houtline
    | cons b place =>
      rw [at?, at?]
      cases hx : v.part? b with
      | none => rw [(part?_eq_none_iff houtline).mpr hx]
      | some x =>
        obtain ⟨y, hy, hxy⟩ := hpart hx
        rw [hy]
        exact hxy.kept fun above hle =>
          habove (b :: above) (List.cons_prefix_cons.mpr ⟨rfl, hle⟩)

theorem outline_eq (h : v.Patched R w) (hnot : ∀ p, ¬ R [] p) : w.outline = v.outline := by
  have hkept : (w.at? []).map outline = (v.at? []).map outline := h.kept fun above hle p => by
    rw [List.prefix_nil.mp hle]
    exact hnot p
  exact Option.some.inj hkept

/-- What is put in below a branch is put into its part. -/
theorem below (h : v.Patched R w) (hnot : ∀ p, ¬ R [] p) (hx : v.part? b = some x) :
    ∃ y, w.part? b = some y ∧ x.Patched (fun place => R (b :: place)) y := by
  obtain ⟨y, hy⟩ := Option.ne_none_iff_exists'.mp fun hy =>
    Option.some_ne_none x (hx.symm.trans ((part?_eq_none_iff (h.outline_eq hnot)).mp hy))
  refine ⟨y, hy, ⟨fun {place p} hp => ?_, fun {place} habove => ?_⟩⟩
  · have hput := h.put hp
    rwa [at?, hy] at hput
  · have hkept : (w.at? (b :: place)).map outline = (v.at? (b :: place)).map outline := by
      refine h.kept fun above hle p => ?_
      cases above with
      | nil => exact hnot p
      | cons c above =>
        obtain ⟨rfl, hrest⟩ := List.cons_prefix_cons.mp hle
        exact habove above hrest p
    rwa [at?, at?, hx, hy] at hkept

theorem unique (hv : v.Ordered) (h : v.Patched R w) (h' : v.Patched R x) : w = x := by
  induction v using partsInduction generalizing R w x with
  | parts v ih =>
    by_cases hroot : ∃ p, R [] p
    · obtain ⟨p, hp⟩ := hroot
      exact Option.some.inj ((h.put hp).trans (h'.put hp).symm)
    have hnot : ∀ p, ¬ R [] p := fun p hp => hroot ⟨p, hp⟩
    have houtline := h.outline_eq hnot
    have houtline' := h'.outline_eq hnot
    refine eq_of_parts hv houtline houtline' fun b => ?_
    cases hy : v.part? b with
    | none => rw [(part?_eq_none_iff houtline).mpr hy, (part?_eq_none_iff houtline').mpr hy]
    | some y =>
      obtain ⟨z, hz, hyz⟩ := h.below hnot hy
      obtain ⟨z', hz', hyz'⟩ := h'.below hnot hy
      rw [hz, hz', ih b y hy (hv.part hy) hyz hyz']

end Patched

end ProviderKit.Value
