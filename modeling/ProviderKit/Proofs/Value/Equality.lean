import ProviderKit.Proofs.Value.Contents

-- Equality of values is an equivalence, and equal values hold equal contents at the same
-- places: under the same keys, at the same indexes, and at the same elements of a set.

namespace ProviderKit

theorem Double.sameNumber_trans {a b c : Double} (hab : a.sameNumber b = true)
    (hbc : b.sameNumber c = true) : a.sameNumber c = true := by
  simp only [sameNumber, isZero, Bool.or_eq_true, Bool.and_eq_true, decide_eq_true_eq] at *
  rcases hab with ⟨ha, hb⟩ | ⟨hn, hm⟩
  · rcases hbc with ⟨_, hc⟩ | ⟨_, hc⟩
    · exact .inl ⟨ha, hc⟩
    · exact .inl ⟨ha, hc ▸ hb⟩
  · rw [hn, hm]
    exact hbc

theorem Number.same_comm (a b : Number) : a.same b = b.same a := by
  cases a <;> cases b <;> simp [same, Double.sameNumber_comm, eq_comm]

theorem Number.same_trans {a b c : Number} (hab : a.same b = true) (hbc : b.same c = true) :
    a.same c = true := by
  cases a <;> cases b <;> cases c <;> simp only [same, Bool.false_eq_true] at *
  · simp only [decide_eq_true_eq] at *
    exact hab.trans hbc
  · exact Double.sameNumber_trans hab hbc

namespace Value

/-! ## An equivalence -/

mutual
theorem same_comm : (v w : Value) → v.same w = w.same v
  | .null, w | .unknown, w => by cases w <;> rfl
  | .bool a, w => by cases w <;> simp [same, eq_comm]
  | .number a, w => by cases w <;> simp [same, Number.same_comm]
  | .string a, w => by cases w <;> simp [same, eq_comm]
  | .list xs, w => by cases w <;> simp [same, sameItems_comm xs]
  | .map es, w => by cases w <;> simp [same, sameEntries_comm es]

theorem sameItems_comm : (xs ys : List Value) → sameItems xs ys = sameItems ys xs
  | [], ys => by cases ys <;> rfl
  | x :: xs, [] => rfl
  | x :: xs, y :: ys => by simp only [sameItems, same_comm x y, sameItems_comm xs ys]

theorem sameEntries_comm : (es fs : List (String × Value)) → sameEntries es fs = sameEntries fs es
  | [], fs => by cases fs <;> rfl
  | (k, x) :: es, [] => rfl
  | (k, x) :: es, (l, y) :: fs => by
    simp only [sameEntries, same_comm x y, sameEntries_comm es fs, eq_comm]
end

mutual
theorem same_trans : (u : Value) → {v w : Value} → u.same v = true → v.same w = true →
    u.same w = true
  | .null, v, w, huv, hvw => by cases v <;> cases w <;> simp_all [same]
  | .unknown, v, w, huv, hvw => by cases v <;> cases w <;> simp_all [same]
  | .bool _, v, w, huv, hvw => by cases v <;> cases w <;> simp_all [same]
  | .number _, v, w, huv, hvw => by
    cases v <;> cases w <;> simp only [same, Bool.false_eq_true] at *
    exact Number.same_trans huv hvw
  | .string _, v, w, huv, hvw => by cases v <;> cases w <;> simp_all [same]
  | .list _, v, w, huv, hvw => by
    cases v <;> cases w <;> simp only [same, Bool.false_eq_true] at *
    exact sameItems_trans _ huv hvw
  | .map _, v, w, huv, hvw => by
    cases v <;> cases w <;> simp only [same, Bool.false_eq_true] at *
    exact sameEntries_trans _ huv hvw

theorem sameItems_trans : (xs : List Value) → {ys zs : List Value} → sameItems xs ys = true →
    sameItems ys zs = true → sameItems xs zs = true
  | [], ys, zs, hxy, hyz => by cases ys <;> simp_all [sameItems]
  | x :: xs, ys, zs, hxy, hyz => by
    cases ys <;> cases zs <;> simp only [sameItems, Bool.and_eq_true, Bool.false_eq_true] at *
    exact ⟨same_trans x hxy.1 hyz.1, sameItems_trans xs hxy.2 hyz.2⟩

theorem sameEntries_trans : (es : List (String × Value)) → {fs gs : List (String × Value)} →
    sameEntries es fs = true → sameEntries fs gs = true → sameEntries es gs = true
  | [], fs, gs, hef, hfg => by cases fs <;> simp_all [sameEntries]
  | (k, x) :: es, fs, gs, hef, hfg => by
    rcases fs with _ | ⟨⟨l, y⟩, fs⟩ <;> rcases gs with _ | ⟨⟨m, z⟩, gs⟩ <;>
      simp only [sameEntries, Bool.and_eq_true, decide_eq_true_eq, Bool.false_eq_true] at *
    exact ⟨⟨hef.1.1.trans hfg.1.1, same_trans x hef.1.2 hfg.1.2⟩,
      sameEntries_trans es hef.2 hfg.2⟩
end

theorem same_symm {v w : Value} (h : v.same w = true) : w.same v = true := by
  rw [same_comm]
  exact h

/-- To be compared with one of two equal values is to be compared with the other. -/
theorem same_congr_right {v w : Value} (h : v.same w = true) (u : Value) :
    u.same v = u.same w := by
  rw [Bool.eq_iff_iff]
  exact ⟨fun hu => same_trans u hu h, fun hu => same_trans u hu (same_symm h)⟩

/-! ## Equal values are of one kind -/

theorem isNull_eq_of_same {v w : Value} (h : v.same w = true) : v.isNull = w.isNull := by
  cases v <;> cases w <;> simp [same, isNull] at *

theorem isUnknown_eq_of_same {v w : Value} (h : v.same w = true) : v.isUnknown = w.isUnknown := by
  cases v <;> cases w <;> simp [same, isUnknown] at *

theorem exists_list_of_same {xs : List Value} {w : Value} (h : (Value.list xs).same w = true) :
    ∃ ys, w = .list ys ∧ sameItems xs ys = true := by
  cases w <;> simp only [same, Bool.false_eq_true] at h
  exact ⟨_, rfl, h⟩

theorem exists_map_of_same {es : List (String × Value)} {w : Value}
    (h : (Value.map es).same w = true) : ∃ fs, w = .map fs ∧ sameEntries es fs = true := by
  cases w <;> simp only [same, Bool.false_eq_true] at h
  exact ⟨_, rfl, h⟩

/-! ## Equal contents at the same places -/

/-- Both there and equal, or both absent. -/
abbrev SameIfAny : Option Value → Option Value → Prop := Option.Rel fun v w => v.same w = true

theorem SameIfAny.getD_null {v w : Option Value} (h : SameIfAny v w) :
    (v.getD .null).same (w.getD .null) = true := by
  cases h with
  | some h => exact h
  | none => rfl

theorem getElem?_same {xs ys : List Value} (h : sameItems xs ys = true) (i : Nat) :
    SameIfAny xs[i]? ys[i]? := by
  induction xs generalizing ys i with
  | nil =>
    cases ys with
    | nil => exact .none
    | cons y ys => simp [sameItems] at h
  | cons x xs ih =>
    cases ys with
    | nil => simp [sameItems] at h
    | cons y ys =>
      simp only [sameItems, Bool.and_eq_true] at h
      cases i with
      | zero => exact .some h.1
      | succ i => simpa using ih h.2 i

theorem get?_same {es fs : List (String × Value)} (h : sameEntries es fs = true) (k : String) :
    SameIfAny (Keyed.get? es k) (Keyed.get? fs k) := by
  induction es generalizing fs with
  | nil =>
    cases fs with
    | nil => exact .none
    | cons f fs => simp [sameEntries] at h
  | cons e es ih =>
    obtain ⟨l, x⟩ := e
    rcases fs with _ | ⟨⟨m, y⟩, fs⟩
    · simp [sameEntries] at h
    · simp only [sameEntries, Bool.and_eq_true, decide_eq_true_eq] at h
      obtain ⟨⟨rfl, hxy⟩, hrest⟩ := h
      rw [Keyed.get?_cons, Keyed.get?_cons]
      by_cases hl : l = k
      · rw [if_pos hl, if_pos hl]
        exact .some hxy
      · rw [if_neg hl, if_neg hl]
        exact ih hrest

theorem find?_same {xs ys : List Value} (h : sameItems xs ys = true) (u : Value) :
    SameIfAny (xs.find? fun x => x.same u) (ys.find? fun y => y.same u) := by
  induction xs generalizing ys with
  | nil =>
    cases ys with
    | nil => exact .none
    | cons y ys => simp [sameItems] at h
  | cons x xs ih =>
    cases ys with
    | nil => simp [sameItems] at h
    | cons y ys =>
      simp only [sameItems, Bool.and_eq_true] at h
      have hxy : x.same u = y.same u := by
        rw [same_comm x u, same_comm y u]
        exact same_congr_right h.1 u
      simp only [List.find?_cons, hxy]
      cases y.same u with
      | true => exact .some h.1
      | false => exact ih h.2

theorem step?_same {v w : Value} (h : v.same w = true) (s : Step) :
    SameIfAny (v.step? s) (w.step? s) := by
  cases v <;> cases w <;> simp only [same, Bool.false_eq_true] at h
  case list.list xs ys =>
    cases s with
    | index i => exact getElem?_same h i
    | element u => exact find?_same h u
    | _ => exact .none
  case map.map es fs =>
    cases s with
    | field name => exact get?_same h name
    | key k => exact get?_same h k
    | _ => exact .none
  all_goals exact .none

/-- An element that stands in a list is found there, up to equality. -/
theorem find?_of_mem {xs : List Value} {x : Value} (h : x ∈ xs) :
    ∃ y, xs.find? (fun item => item.same x) = some y ∧ y.same x = true := by
  cases hf : xs.find? fun item => item.same x with
  | none => exact absurd (same_self x) (List.find?_eq_none.mp hf x h)
  | some y =>
    have hy := List.find?_some hf
    exact ⟨y, rfl, hy⟩

/-! ## Parts of equal values -/

theorem entryOrNull_same {v w : Value} (h : v.same w = true) (k : String) :
    (v.entryOrNull k).same (w.entryOrNull k) = true := by
  unfold entryOrNull entry?
  cases v <;> cases w <;> simp only [same, Bool.false_eq_true] at h
  case map.map es fs => exact (get?_same h k).getD_null
  all_goals rfl

theorem itemOrNull_same {v w : Value} (h : v.same w = true) (i : Nat) :
    (v.itemOrNull i).same (w.itemOrNull i) = true := by
  unfold itemOrNull asItems?
  cases v <;> cases w <;> simp only [same, Bool.false_eq_true] at h
  case list.list xs ys => exact (getElem?_same h i).getD_null
  all_goals rfl

/-- An element of a set is paired with an equal one of an equal set. -/
theorem elementOrNull_same {xs : List Value} {w : Value} (h : (Value.list xs).same w = true)
    {x : Value} (hx : x ∈ xs) : x.same (w.elementOrNull x) = true := by
  obtain ⟨ys, rfl, hys⟩ := exists_list_of_same h
  obtain ⟨y, hf, hy⟩ := find?_of_mem hx
  have hrel := find?_same hys x
  rw [hf] at hrel
  unfold elementOrNull asItems?
  simp only [Option.getD_some]
  cases hg : ys.find? fun item => item.same x with
  | none => rw [hg] at hrel; cases hrel
  | some z =>
    have hz := List.find?_some hg
    exact same_symm hz

/-- Maps with the same keys are equal when they have equal entries under each key. -/
theorem sameEntries_of_get? {es fs : Keyed Value} (hes : Keyed.Ascending es)
    (hkeys : Keyed.keys es = Keyed.keys fs)
    (h : ∀ k x y, Keyed.get? es k = some x → Keyed.get? fs k = some y → x.same y = true) :
    sameEntries es fs = true := by
  induction es generalizing fs with
  | nil =>
    cases fs with
    | nil => rfl
    | cons f fs => cases hkeys
  | cons e es ih =>
    obtain ⟨k, x⟩ := e
    rcases fs with _ | ⟨⟨l, y⟩, fs⟩
    · cases hkeys
    obtain ⟨hfirst, hrest⟩ := List.pairwise_cons.mp hes
    simp only [Keyed.keys, List.map_cons, List.cons.injEq] at hkeys
    obtain ⟨rfl, hkeys⟩ := hkeys
    have hxy : x.same y = true := by
      refine h k x y ?_ ?_ <;> rw [Keyed.get?_cons, if_pos rfl]
    simp only [sameEntries, decide_true, hxy, Bool.true_and]
    refine ih hrest hkeys fun k' x' y' hx hy => h k' x' y' ?_ ?_
    all_goals
      have hne : k ≠ k' := by
        rintro rfl
        exact String.lt_irrefl k (hfirst _ (Keyed.mem_of_get? hx))
      rwa [Keyed.get?_cons, if_neg hne]

/-! ## Fully known values -/

theorem allFullyKnown_cons (x : Value) (xs : List Value) :
    allFullyKnown (x :: xs) = true ↔ x.isFullyKnown = true ∧ allFullyKnown xs = true := by
  rw [allFullyKnown, Bool.and_eq_true]

theorem entriesFullyKnown_cons (k : String) (x : Value) (es : List (String × Value)) :
    entriesFullyKnown ((k, x) :: es) = true ↔
      x.isFullyKnown = true ∧ entriesFullyKnown es = true := by
  rw [entriesFullyKnown, Bool.and_eq_true]

theorem isFullyKnown_of_mem_list {xs : List Value} (h : (Value.list xs).isFullyKnown = true)
    {x : Value} (hx : x ∈ xs) : x.isFullyKnown = true := by
  rw [isFullyKnown] at h
  induction xs with
  | nil => cases hx
  | cons y ys ih =>
    rw [allFullyKnown_cons] at h
    rcases List.mem_cons.mp hx with rfl | hx
    · exact h.1
    · exact ih h.2 hx

theorem isFullyKnown_of_mem_map {es : List (String × Value)}
    (h : (Value.map es).isFullyKnown = true) {e : String × Value} (he : e ∈ es) :
    e.2.isFullyKnown = true := by
  rw [isFullyKnown] at h
  induction es with
  | nil => cases he
  | cons f fs ih =>
    obtain ⟨k, y⟩ := f
    rw [entriesFullyKnown_cons] at h
    rcases List.mem_cons.mp he with rfl | he
    · exact h.1
    · exact ih h.2 he

mutual
theorem isFullyKnown_eq_of_same : (v : Value) → {w : Value} → v.same w = true →
    v.isFullyKnown = w.isFullyKnown
  | .null, w, h | .unknown, w, h | .bool _, w, h | .number _, w, h | .string _, w, h => by
    cases w <;> simp [same, isFullyKnown] at *
  | .list xs, w, h => by
    cases w <;> simp only [same, Bool.false_eq_true] at h
    simp only [isFullyKnown, allFullyKnown_eq_of_same xs h]
  | .map es, w, h => by
    cases w <;> simp only [same, Bool.false_eq_true] at h
    simp only [isFullyKnown, entriesFullyKnown_eq_of_same es h]

theorem allFullyKnown_eq_of_same : (xs : List Value) → {ys : List Value} →
    sameItems xs ys = true → allFullyKnown xs = allFullyKnown ys
  | [], ys, h => by cases ys <;> simp [sameItems] at h ⊢
  | x :: xs, ys, h => by
    cases ys <;> simp only [sameItems, Bool.and_eq_true, Bool.false_eq_true] at h
    simp only [allFullyKnown, isFullyKnown_eq_of_same x h.1, allFullyKnown_eq_of_same xs h.2]

theorem entriesFullyKnown_eq_of_same : (es : List (String × Value)) →
    {fs : List (String × Value)} → sameEntries es fs = true →
      entriesFullyKnown es = entriesFullyKnown fs
  | [], fs, h => by cases fs <;> simp [sameEntries] at h ⊢
  | (k, x) :: es, fs, h => by
    rcases fs with _ | ⟨⟨l, y⟩, fs⟩ <;>
      simp only [sameEntries, Bool.and_eq_true, Bool.false_eq_true] at h
    simp only [entriesFullyKnown, isFullyKnown_eq_of_same x h.1.2,
      entriesFullyKnown_eq_of_same es h.2]
end

end Value

end ProviderKit
