import ProviderKit.Proofs.Schema.Filled

-- Values whose maps are dictionaries: their keys ascend, at every depth. Storing an entry that
-- is there already changes nothing in such a map. Filling out keeps values ordered.

namespace ProviderKit

/-! ## Ordered values -/

/-- The keys of every map in the value ascend. -/
inductive Value.Ordered : Value → Prop
  | atom {v : Value} : v.isAtom = true → Ordered v
  | list {xs : List Value} : (∀ x ∈ xs, Ordered x) → Ordered (.list xs)
  | map {es : List (String × Value)} : Keyed.Ascending es → (∀ e ∈ es, Ordered e.2) →
      Ordered (.map es)

theorem Value.Ordered.of_list {xs : List Value} (h : (Value.list xs).Ordered) {x : Value}
    (hx : x ∈ xs) : x.Ordered := by
  cases h with
  | atom h => cases h
  | list h => exact h x hx

theorem Value.Ordered.ascending {es : List (String × Value)} (h : (Value.map es).Ordered) :
    Keyed.Ascending es := by
  cases h with
  | atom h => cases h
  | map ha _ => exact ha

theorem Value.Ordered.of_map {es : List (String × Value)} (h : (Value.map es).Ordered)
    {e : String × Value} (he : e ∈ es) : e.2.Ordered := by
  cases h with
  | atom h => cases h
  | map _ h => exact h e he

theorem Value.Ordered.enclosed {v x : Value} (h : v.Ordered) (hx : v.Encloses x) : x.Ordered := by
  cases hx with
  | item hx => exact h.of_list hx
  | entry he => exact h.of_map he

@[simp] theorem Value.ordered_string (s : String) : (Value.string s).Ordered := .atom rfl

@[simp] theorem Value.ordered_null : Value.null.Ordered := .atom rfl

@[simp] theorem Value.ordered_unknown : Value.unknown.Ordered := .atom rfl

theorem Keyed.ascending_iff_keys {α : Type} {es : Keyed α} :
    Ascending es ↔ (keys es).Pairwise (· < ·) := by
  rw [keys, List.pairwise_map]
  rfl

theorem Value.ordered_of_keys {es : List (String × Value)}
    (hkeys : (Keyed.keys es).Pairwise (· < ·)) (h : ∀ e ∈ es, e.2.Ordered) :
    (Value.map es).Ordered :=
  .map (Keyed.ascending_iff_keys.mpr hkeys) h

@[simp] theorem Value.ordered_entry {k : String} {v : Value} :
    (Value.map [(k, v)]).Ordered ↔ v.Ordered :=
  ⟨fun h => h.of_map (List.mem_singleton_self (k, v)), fun h =>
    .map (List.pairwise_singleton ..) fun _ he => List.mem_singleton.mp he ▸ h⟩

/-! ## Walks keep values ordered -/

section

variable {β : Type} {visit : Visit β (Except Fault)} {path : Path} {position : Position β}

theorem Rebuilds.ordered
    (hvisit : ∀ {path} {position : Position β} {v u}, v.Ordered →
      visit path (position.node path) v = .ok u → u.Ordered)
    {v w : Value} (hv : v.Ordered) (h : Rebuilds visit path position v w) : w.Ordered := by
  induction w using Value.contentsInduction generalizing path position v with
  | atom w hw => exact .atom hw
  | list ys ih =>
    obtain ⟨u, hu, hbelow⟩ := h
    obtain ⟨xs, child, rfl, _, hitems⟩ := rebuildsBelow_list_iff.mp hbelow
    refine .list (fun y hy => ?_)
    obtain ⟨j, hj⟩ := List.getElem?_of_mem hy
    have hrel := hitems.getElem? j
    rw [hj] at hrel
    obtain ⟨x, hx, hr⟩ := exists_of_rel_some_right hrel
    exact ih y hy ((hvisit hv hu).of_list (List.mem_of_getElem? hx)) hr
  | map fs ih =>
    obtain ⟨u, hu, hbelow⟩ := h
    obtain ⟨es, child, rfl, _, hentries⟩ := rebuildsBelow_map_iff.mp hbelow
    have hes := (hvisit hv hu).ascending
    have hfs : Keyed.Ascending fs := by
      rw [Keyed.ascending_iff_keys, ← hentries.keys_eq, ← Keyed.ascending_iff_keys]
      exact hes
    refine .map hfs (fun f hf => ?_)
    have hrel := hentries.get? f.1
    rw [Keyed.get?_of_mem hfs (a := f.2) hf] at hrel
    obtain ⟨x, hx, hr⟩ := exists_of_rel_some_right hrel
    exact ih f hf ((hvisit hv hu).of_map (Keyed.mem_of_get? hx)) hr

theorem ordered_fillNode (node : Except Fault (Node β)) {v : Value} (h : v.Ordered) :
    (fillNode node v).Ordered := by
  cases hv : v.asEntries? with
  | none =>
    rw [fillNode_of_not_map _ hv]
    exact h
  | some es =>
    cases v <;> cases hv
    cases node with
    | error fault =>
      rw [fillNode_of_error]
      exact h
    | ok n =>
      rw [fillNode_map]
      refine .map (h.ascending.fillNames _) (fun e he => ?_)
      rcases mem_fillNames he with hnull | he
      · rw [hnull]
        exact .atom rfl
      · exact h.of_map he

theorem ordered_of_fillAbsent {s : Schema β} {v w : Value} (hv : v.Ordered)
    (h : s.fillAbsent v = .ok w) : w.Ordered := by
  refine (fillAbsent_eq_ok_iff.mp h).ordered ?_ hv
  intro path position v u hv hu
  cases hu
  exact ordered_fillNode _ hv

end

end ProviderKit
