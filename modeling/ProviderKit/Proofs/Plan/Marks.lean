import ProviderKit.Proofs.Plan.Stages
import ProviderKit.Proofs.Plan.Visits

-- What the stage of unknowns changes. Where the plan that it leaves is not the plan that it was
-- given, it met something that the provider decides and the configuration leaves out.

namespace ProviderKit

variable {β : Type}

/-! ## What is made unknown -/

/-- Following the steps, a value holds another one. -/
def Value.HoldsAt : Value → List Step → Value → Prop
  | v, [], x => v = x
  | v, s :: steps, x => ∃ y, v.Holds s y ∧ y.HoldsAt steps x

theorem Value.holdsAt_append {v x : Value} {ss ts : List Step} :
    v.HoldsAt (ss ++ ts) x ↔ ∃ y, v.HoldsAt ss y ∧ y.HoldsAt ts x := by
  induction ss generalizing v with
  | nil => simp [HoldsAt]
  | cons s ss ih =>
    simp only [List.cons_append, HoldsAt, ih]
    constructor
    · rintro ⟨y, hy, z, hz, hx⟩
      exact ⟨z, ⟨y, hy, hz⟩, hx⟩
    · rintro ⟨z, ⟨y, hy, hz⟩, hx⟩
      exact ⟨y, hy, z, hz, hx⟩

/-- At the path the value holds something, not unknown yet, that the provider decides and the
configuration leaves out. -/
def Schema.Marks (s : Schema β) (config v : Value) (path : Path) : Prop :=
  ∃ a x, s.attributeAt path = .ok a ∧ a.isLeftToProvider = true ∧
    config.configures path = false ∧ v.HoldsAt path.steps x ∧ x ≠ .unknown

theorem attributeAt_eq_ok_iff {s : Schema β} {path : Path} {a : Attribute β} :
    s.attributeAt path = .ok a ↔ (Node.block s.root).Reaches path.steps (.attr a) := by
  rw [← nodeAt_eq_ok_iff, Schema.attributeAt, bind_eq_ok_iff]
  constructor
  · rintro ⟨n, hn, h⟩
    cases n with
    | attr b =>
      cases h
      exact hn
    | _ => cases h
  · intro h
    exact ⟨_, h, rfl⟩

theorem Value.holds_of_itemChild {position : Position β} {child : Nat → Value → Position.Child β}
    (hc : position.itemChild = some child) {xs : List Value} {i : Nat} {x : Value}
    (hx : xs[i]? = some x) : (Value.list xs).Holds (child i x).step x := by
  rcases Position.itemChild_step hc i x with hs | hs
  · rw [hs]
    exact .index hx
  · rw [hs]
    exact .element (List.mem_of_getElem? hx)

theorem Value.holds_of_entryChild {position : Position β} {child : String → Position.Child β}
    (hc : position.entryChild = some child) {es : List (String × Value)} {k : String} {x : Value}
    (hx : Keyed.get? es k = some x) : (Value.map es).Holds (child k).step x := by
  rcases Position.entryChild_step hc k with hs | hs
  · rw [hs]
    have := Value.Holds.field es k
    rwa [hx] at this
  · rw [hs]
    exact .key hx

/-- What a rebuilt value holds was rebuilt from what stood there, under the same step. An element of
a set was rebuilt under the step of the element that it was. -/
theorem RebuildsBelow.exists_of_holds {visit : Visit β (Except Fault)} {path : Path} {n m : Node β}
    {step : Step} {v w x : Value} (hleads : n.Leads step m)
    (h : RebuildsBelow visit path (.described n) v w) (hx : w.Holds step x) :
    ∃ s y, n.Leads s m ∧ v.Holds s y ∧
      (x = y ∨ Rebuilds visit (path.push s) (.described m) y x) ∧
      (s = step ∨ step = .element x ∧ s = .element y) := by
  cases hx with
  | field fs name =>
    obtain ⟨es, child, rfl, hc, hentries⟩ := rebuildsBelow_map_iff.mp h
    have hrel := hentries.get? name
    rw [Position.entryChild_of_leads hleads hc (.inl rfl)] at hrel
    refine ⟨_, _, hleads, .field es name, ?_, .inl rfl⟩
    cases hy : Keyed.get? es name with
    | none =>
      rw [hy] at hrel
      generalize hz : Keyed.get? fs name = z at hrel
      cases hrel
      exact .inl rfl
    | some y =>
      rw [hy] at hrel
      obtain ⟨z, hz, hr⟩ := exists_of_rel_some_left hrel
      rw [hz]
      exact .inr hr
  | @key fs k x hx =>
    obtain ⟨es, child, rfl, hc, hentries⟩ := rebuildsBelow_map_iff.mp h
    have hrel := hentries.get? k
    rw [Position.entryChild_of_leads hleads hc (.inr rfl), hx] at hrel
    obtain ⟨y, hy, hr⟩ := exists_of_rel_some_right hrel
    exact ⟨_, y, hleads, .key hy, .inr hr, .inl rfl⟩
  | @index ys i x hx =>
    obtain ⟨xs, child, rfl, hc, hitems⟩ := rebuildsBelow_list_iff.mp h
    have hrel := hitems.getElem? i
    rw [hx] at hrel
    obtain ⟨y, hy, hr⟩ := exists_of_rel_some_right hrel
    rw [Nat.zero_add, Position.itemChild_of_leads hleads hc (.inl rfl)] at hr
    exact ⟨_, y, hleads, .index hy, .inr hr, .inl rfl⟩
  | @element ys x hx =>
    obtain ⟨xs, child, rfl, hc, hitems⟩ := rebuildsBelow_list_iff.mp h
    obtain ⟨i, hi⟩ := List.getElem?_of_mem hx
    have hrel := hitems.getElem? i
    rw [hi] at hrel
    obtain ⟨y, hy, hr⟩ := exists_of_rel_some_right hrel
    have hleads' : n.Leads (.element y) m := by
      cases hleads with
      | element _ hv => exact .element y hv
    rw [Nat.zero_add, Position.itemChild_of_leads hleads' hc (.inr rfl)] at hr
    exact ⟨_, y, hleads', .element (List.mem_of_getElem? hy), .inr hr, .inr ⟨rfl, rfl⟩⟩

section

variable {config : Value} {path : Path} {position : Position β}

/-- Below a position there is something to make unknown. -/
def Position.MarksBelow (position : Position β) (config : Value) (path : Path) (v : Value) : Prop :=
  ∃ n below a x, position = .described n ∧ n.Reaches below (.attr a) ∧
    a.isLeftToProvider = true ∧ config.configures ⟨path.steps ++ below⟩ = false ∧
    v.HoldsAt below x ∧ x ≠ .unknown

theorem Position.MarksBelow.of_step {n m : Node β} {s : Step} (hleads : n.Leads s m) {v x : Value}
    (hx : v.Holds s x) (h : MarksBelow (.described m) config (path.push s) x) :
    MarksBelow (.described n) config path v := by
  obtain ⟨_, below, a, y, hm, hreaches, ha, hconfig, hy, hne⟩ := h
  cases hm
  refine ⟨n, s :: below, a, y, rfl, ⟨m, hleads, hreaches⟩, ha, ?_, ⟨x, hx, hy⟩, hne⟩
  rw [Path.push_steps, List.append_assoc] at hconfig
  exact hconfig

theorem Position.exists_attr_of_isLeftToProvider (h : position.isLeftToProvider = true) :
    ∃ a, position = .described (.attr a) ∧ a.isLeftToProvider = true := by
  cases position with
  | described n =>
    cases n with
    | attr a => exact ⟨a, rfl, h⟩
    | _ => cases h
  | _ => cases h

/-- What is not made unknown itself changes below. -/
theorem marksBelow_of_below {v w : Value} (h : Rebuilds (unknownAt config) path position v w)
    (hbelow : RebuildsBelow (unknownAt config) path position v w →
      position.MarksBelow config path v) :
    position.MarksBelow config path v := by
  obtain ⟨u, hu, hw⟩ := h
  have heq := eq_of_unknownAt hu
  by_cases huv : u = v
  · rw [huv] at hw
    exact hbelow hw
  · split at heq
    · next hcond =>
      subst heq
      simp only [Bool.and_eq_true, Bool.not_eq_true'] at hcond
      obtain ⟨⟨_, hconfig⟩, hleft⟩ := hcond
      obtain ⟨a, rfl, ha⟩ := Position.exists_attr_of_isLeftToProvider hleft
      refine ⟨.attr a, [], a, v, rfl, rfl, ha, ?_, rfl, Ne.symm huv⟩
      rw [List.append_nil]
      exact hconfig
    · exact absurd heq huv

/-- What the stage of unknowns changes holds something that it makes unknown. -/
theorem marksBelow_of_ne {v w : Value} (h : Rebuilds (unknownAt config) path position v w)
    (hv : v.Ordered) (hne : w ≠ v) : position.MarksBelow config path v := by
  induction v using Value.contentsInduction generalizing path position w with
  | atom v hatom =>
    refine marksBelow_of_below h (fun hbelow => ?_)
    exact absurd ((rebuildsBelow_of_atom_iff hatom).mp hbelow).1.symm hne
  | list xs ih =>
    refine marksBelow_of_below h (fun hbelow => ?_)
    obtain ⟨ys, child, rfl, hc, hitems⟩ := rebuildsBelow_of_list_iff.mp hbelow
    obtain ⟨i, x, y, hx, hy, hr⟩ := hitems.exists_of_ne (fun he => hne (by rw [he]))
    rw [Nat.zero_add] at hr
    have hmem := List.mem_of_getElem? hx
    have hmarks := ih x hmem hr (hv.of_list hmem) hy
    obtain ⟨m, _, _, _, hm, _⟩ := id hmarks
    obtain ⟨n, rfl, hleads⟩ := Position.leads_of_itemChild hc hm
    rw [hm] at hmarks
    exact hmarks.of_step hleads (Value.holds_of_itemChild hc hx)
  | map es ih =>
    refine marksBelow_of_below h (fun hbelow => ?_)
    obtain ⟨fs, child, rfl, hc, hentries⟩ := rebuildsBelow_of_map_iff.mp hbelow
    obtain ⟨k, x, y, hx, hy, hr⟩ := hentries.exists_of_ne (fun he => hne (by rw [he]))
    have hmarks := ih (k, x) hx hr (hv.of_map hx) hy
    obtain ⟨m, _, _, _, hm, _⟩ := id hmarks
    obtain ⟨n, rfl, hleads⟩ := Position.leads_of_entryChild hc hm
    rw [hm] at hmarks
    exact hmarks.of_step hleads
      (Value.holds_of_entryChild hc (Keyed.get?_of_mem hv.ascending hx))

/-- Where nothing is unknown afterwards, the stage of unknowns changed nothing. -/
theorem eq_of_unknownAt_of_isFullyKnown {v w : Value}
    (h : Rebuilds (unknownAt config) path position v w) (hw : w.isFullyKnown = true) : w = v := by
  induction w using Value.contentsInduction generalizing path position v with
  | atom w hatom =>
    obtain ⟨u, hu, hbelow⟩ := h
    have heq := eq_of_unknownAt hu
    rw [((rebuildsBelow_atom_iff hatom).mp hbelow).1] at heq
    split at heq
    · rw [heq] at hw
      cases hw
    · exact heq
  | list ys ih =>
    obtain ⟨u, hu, hbelow⟩ := h
    obtain ⟨xs, child, rfl, _, hitems⟩ := rebuildsBelow_list_iff.mp hbelow
    have heq := eq_of_unknownAt hu
    split at heq
    · cases heq
    · rw [← heq, hitems.eq_map (F := id), List.map_id]
      exact fun y hy _ _ hx => ih y hy hx (Value.isFullyKnown_of_mem_list hw hy)
  | map fs ih =>
    obtain ⟨u, hu, hbelow⟩ := h
    obtain ⟨es, child, rfl, _, hentries⟩ := rebuildsBelow_map_iff.mp hbelow
    have heq := eq_of_unknownAt hu
    split at heq
    · cases heq
    · rw [← heq, hentries.eq_map (F := fun _ x => x), List.map_id']
      exact fun f hf _ hx => ih f hf hx (Value.isFullyKnown_of_mem_map hw hf)

theorem ordered_of_unknownAt {v w : Value} (h : Rebuilds (unknownAt config) path position v w)
    (hv : v.Ordered) : w.Ordered := by
  refine h.ordered ?_ hv
  intro path position v u hv hu
  rw [eq_of_unknownAt hu]
  split
  · exact .atom rfl
  · exact hv

end

end ProviderKit
