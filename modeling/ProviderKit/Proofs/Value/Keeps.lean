import ProviderKit.Proofs.Value.Contents

-- What one value keeps of another: everything that is not null, at the same places. Lists
-- are compared item by item, maps entry by entry, and new entries are no loss. A value that is
-- padded keeps everything, null or not, and gains null entries only.

namespace ProviderKit.Value

/-- The second value holds what the first one holds, wherever the first is not null. -/
inductive Keeps : Value → Value → Prop
  | null (w : Value) : Keeps .null w
  | atom {v : Value} : v.isAtom = true → Keeps v v
  | list {xs ys : List Value} : xs.length = ys.length →
      (∀ (i : Nat) x y, xs[i]? = some x → ys[i]? = some y → Keeps x y) →
      Keeps (.list xs) (.list ys)
  | map {es fs : List (String × Value)} :
      (∀ k x, Keyed.get? es k = some x → ∃ y, Keyed.get? fs k = some y) →
      (∀ k x y, Keyed.get? es k = some x → Keyed.get? fs k = some y → Keeps x y) →
      Keeps (.map es) (.map fs)

namespace Keeps

theorem exists_list {xs : List Value} {w : Value} (h : (Value.list xs).Keeps w) :
    ∃ ys, w = .list ys := by
  cases h with
  | atom h => cases h
  | list _ _ => exact ⟨_, rfl⟩

theorem exists_map {es : List (String × Value)} {w : Value} (h : (Value.map es).Keeps w) :
    ∃ fs, w = .map fs := by
  cases h with
  | atom h => cases h
  | map _ _ => exact ⟨_, rfl⟩

theorem getElem? {xs ys : List Value} (h : (Value.list xs).Keeps (.list ys)) {i : Nat} {x : Value}
    (hx : xs[i]? = some x) : ∃ y, ys[i]? = some y ∧ x.Keeps y := by
  cases h with
  | atom h => cases h
  | list hl h =>
    obtain ⟨hi, _⟩ := List.getElem?_eq_some_iff.mp hx
    have hy : ys[i]? = some ys[i] := List.getElem?_eq_getElem (hl ▸ hi)
    exact ⟨_, hy, h i x _ hx hy⟩

theorem length_eq {xs ys : List Value} (h : (Value.list xs).Keeps (.list ys)) :
    xs.length = ys.length := by
  cases h with
  | atom h => cases h
  | list hl _ => exact hl

theorem get? {es fs : List (String × Value)} (h : (Value.map es).Keeps (.map fs)) {k : String}
    {x : Value} (hx : Keyed.get? es k = some x) : ∃ y, Keyed.get? fs k = some y ∧ x.Keeps y := by
  cases h with
  | atom h => cases h
  | map hk h =>
    obtain ⟨y, hy⟩ := hk k x hx
    exact ⟨y, hy, h k x y hx hy⟩

theorem of_get? {es fs : List (String × Value)}
    (h : ∀ k x, Keyed.get? es k = some x → ∃ y, Keyed.get? fs k = some y ∧ x.Keeps y) :
    (Value.map es).Keeps (.map fs) := by
  refine .map (fun k x hx => ?_) (fun k x y hx hy => ?_)
  · obtain ⟨y, hy, _⟩ := h k x hx
    exact ⟨y, hy⟩
  · obtain ⟨z, hz, hk⟩ := h k x hx
    rw [hy] at hz
    cases hz
    exact hk

theorem trans {u v w : Value} (huv : u.Keeps v) (hvw : v.Keeps w) : u.Keeps w := by
  induction huv generalizing w with
  | null v => exact .null w
  | atom hv => exact hvw
  | @list xs ys hl h ih =>
    obtain ⟨zs, rfl⟩ := hvw.exists_list
    refine .list (hl.trans hvw.length_eq) (fun i x z hx hz => ?_)
    obtain ⟨y, hy, _⟩ := getElem? (.list hl h) hx
    obtain ⟨z', hz', hyz⟩ := hvw.getElem? hy
    rw [hz] at hz'
    cases hz'
    exact ih i x y hx hy hyz
  | @map es fs hk h ih =>
    obtain ⟨gs, rfl⟩ := hvw.exists_map
    refine of_get? (fun k x hx => ?_)
    obtain ⟨y, hy⟩ := hk k x hx
    obtain ⟨z, hz, hyz⟩ := hvw.get? hy
    exact ⟨z, hz, ih k x y hx hy hyz⟩

/-- Where something was, something stays. -/
theorem isNull_eq_false {v w : Value} (h : v.Keeps w) (hv : v.isNull = false) :
    w.isNull = false := by
  cases h with
  | null => cases hv
  | atom _ => exact hv
  | list _ _ => rfl
  | map _ _ => rfl

/-- Nothing that is known is kept by an unknown value. -/
theorem unknown_iff {v : Value} : v.Keeps .unknown ↔ v.isKnown = false := by
  constructor
  · intro h
    cases h <;> rfl
  · intro h
    cases hn : v.isNull with
    | true =>
      rw [eq_null_of_isNull hn]
      exact .null _
    | false =>
      cases hu : v.isUnknown with
      | true =>
        rw [eq_unknown_of_isUnknown hu]
        exact .atom rfl
      | false =>
        rw [isKnown_iff.mpr ⟨hn, hu⟩] at h
        cases h

theorem eq_of_atom {v w : Value} (h : v.Keeps w) (ha : v.isAtom = true)
    (hn : v.isNull = false) : w = v := by
  cases h with
  | null => cases hn
  | atom _ => rfl
  | list _ _ => cases ha
  | map _ _ => cases ha

end Keeps

/-- The second value is the first one with null entries added. -/
inductive Padded : Value → Value → Prop
  | atom {v : Value} : v.isAtom = true → Padded v v
  | list {xs ys : List Value} : xs.length = ys.length →
      (∀ (i : Nat) x y, xs[i]? = some x → ys[i]? = some y → Padded x y) →
      Padded (.list xs) (.list ys)
  | map {es fs : List (String × Value)} :
      (∀ k x, Keyed.get? es k = some x → ∃ y, Keyed.get? fs k = some y) →
      (∀ k x y, Keyed.get? es k = some x → Keyed.get? fs k = some y → Padded x y) →
      (∀ k y, Keyed.get? es k = none → Keyed.get? fs k = some y → y = .null) →
      Padded (.map es) (.map fs)

namespace Padded

theorem refl (v : Value) : v.Padded v := by
  induction v using Value.contentsInduction with
  | atom v hv => exact .atom hv
  | list xs ih =>
    refine .list rfl (fun i x y hx hy => ?_)
    rw [hx] at hy
    cases hy
    exact ih x (List.mem_of_getElem? hx)
  | map es ih =>
    refine .map (fun k x hx => ⟨x, hx⟩) (fun k x y hx hy => ?_) (fun k y hx hy => ?_)
    · rw [hx] at hy
      cases hy
      exact ih (k, x) (Keyed.mem_of_get? hx)
    · rw [hx] at hy
      cases hy

theorem keeps {v w : Value} (h : v.Padded w) : v.Keeps w := by
  induction h with
  | atom hv => exact .atom hv
  | list hl _ ih => exact .list hl ih
  | map hk _ _ ih => exact .map hk ih

end Padded

theorem Keeps.refl (v : Value) : v.Keeps v := (Padded.refl v).keeps

end ProviderKit.Value
