import Mathlib.Data.List.Forall2
import ProviderKit.Keyed

-- Dictionaries that are put together entry by entry: entries in ascending order stay where
-- they are, and taking out some of the keys can be done before or after. Dictionaries that are
-- related entry by entry are related key by key.

namespace ProviderKit.Keyed

variable {α β : Type} {d es : Keyed α} {k : String} {a : α}

/-! ## The place of an entry -/

theorem insert_of_forall_lt (h : ∀ e ∈ d, k < e.1) : insert d k a = (k, a) :: d := by
  cases d with
  | nil => rfl
  | cons e rest =>
    obtain ⟨l, b⟩ := e
    have hlt : k < l := h (l, b) List.mem_cons_self
    have hne : l ≠ k := fun he => String.lt_irrefl k (he ▸ hlt)
    rw [insert, if_neg hne, if_pos hlt]

theorem insert_of_forall_gt (h : ∀ e ∈ d, e.1 < k) : insert d k a = d ++ [(k, a)] := by
  induction d with
  | nil => rfl
  | cons e rest ih =>
    obtain ⟨l, b⟩ := e
    have hlt : l < k := h (l, b) List.mem_cons_self
    have hne : l ≠ k := fun he => String.lt_irrefl k (he ▸ hlt)
    have hnot : ¬ k < l := fun hkl => String.lt_irrefl k (String.lt_trans hkl hlt)
    rw [insert, if_neg hne, if_neg hnot, ih fun e he => h e (List.mem_cons_of_mem _ he),
      List.cons_append]

theorem length_insert_of_get?_eq_none (h : get? d k = none) :
    (insert d k a).length = d.length + 1 := by
  induction d with
  | nil => rfl
  | cons e rest ih =>
    obtain ⟨l, b⟩ := e
    rw [get?_cons] at h
    split at h
    · cases h
    · next hl =>
      unfold insert
      rw [if_neg hl]
      split
      · rfl
      · rw [List.length_cons, ih h, List.length_cons]

/-- Of two values stored under one key after each other, the second stays. -/
theorem insert_insert (d : Keyed α) (k : String) (a b : α) :
    insert (insert d k a) k b = insert d k b := by
  induction d with
  | nil => simp [insert]
  | cons e rest ih =>
    obtain ⟨l, c⟩ := e
    by_cases hl : l = k
    · simp [insert, hl]
    by_cases hlt : k < l
    · simp [insert, hl, hlt]
    · simpa [insert, hl, hlt] using ih

/-- Entries that ascend are put one behind the other. -/
theorem foldl_insert_of_ascending (h : Ascending (d ++ es)) :
    es.foldl (fun d e => insert d e.1 e.2) d = d ++ es := by
  induction es generalizing d with
  | nil => exact (List.append_nil d).symm
  | cons e rest ih =>
    have hlast : insert d e.1 e.2 = d ++ [e] :=
      insert_of_forall_gt fun f hf => (List.pairwise_append.mp h).2.2 f hf e List.mem_cons_self
    rw [List.foldl_cons, hlast, ih (by simpa using h), List.append_assoc, List.singleton_append]

theorem ofEntries_of_ascending (h : Ascending es) : ofEntries es = es :=
  foldl_insert_of_ascending (d := []) h

theorem Ascending.foldl_insert (h : Ascending d) (es : List (String × α)) :
    Ascending (es.foldl (fun d e => Keyed.insert d e.1 e.2) d) := by
  induction es generalizing d with
  | nil => exact h
  | cons e rest ih => exact ih (h.insert e.1 e.2)

theorem ascending_ofEntries (es : List (String × α)) : Ascending (ofEntries es) :=
  Ascending.foldl_insert List.Pairwise.nil es

theorem mem_of_mem_ofEntries {es : List (String × α)} {e : String × α} (h : e ∈ ofEntries es) :
    e ∈ es := by
  have hfold (d : Keyed α) (hd : e ∈ es.foldl (fun d e => insert d e.1 e.2) d) :
      e ∈ d ∨ e ∈ es := by
    clear h
    induction es generalizing d with
    | nil => exact .inl hd
    | cons f rest ih =>
      rcases ih _ hd with hd | hrest
      · rcases mem_insert hd with rfl | hd
        · exact .inr List.mem_cons_self
        · exact .inl hd
      · exact .inr (List.mem_cons_of_mem _ hrest)
  rcases hfold [] h with hnil | he
  · cases hnil
  · exact he

/-! ## Some of the keys -/

/-- The entries under certain keys. -/
def restrict (p : String → Bool) (d : Keyed α) : Keyed α := d.filter fun e => p e.1

theorem restrict_append (p : String → Bool) (d es : Keyed α) :
    restrict p (d ++ es) = restrict p d ++ restrict p es := List.filter_append ..

theorem restrict_cons (p : String → Bool) (e : String × α) (d : Keyed α) :
    restrict p (e :: d) = if p e.1 then e :: restrict p d else restrict p d := by
  unfold restrict
  rw [List.filter_cons]

theorem restrict_eq_self {p : String → Bool} (h : ∀ e ∈ d, p e.1 = true) : restrict p d = d :=
  List.filter_eq_self.mpr h

theorem restrict_eq_nil {p : String → Bool} (h : ∀ e ∈ d, p e.1 = false) :
    restrict p d = [] := by
  refine List.filter_eq_nil_iff.mpr fun e he => ?_
  rw [h e he]
  exact Bool.false_ne_true

theorem restrict_insert (p : String → Bool) (h : Ascending d) (k : String) (a : α) :
    restrict p (insert d k a) =
      if p k then insert (restrict p d) k a else restrict p d := by
  induction d with
  | nil => exact restrict_cons p (k, a) []
  | cons e rest ih =>
    obtain ⟨l, b⟩ := e
    have hrest : Ascending rest := (List.pairwise_cons.mp h).2
    have hfirst : ∀ f ∈ rest, l < f.1 := (List.pairwise_cons.mp h).1
    by_cases hl : l = k
    · subst hl
      rw [insert, if_pos rfl, restrict_cons, restrict_cons]
      by_cases hp : p l = true
      · rw [if_pos hp, if_pos hp, if_pos hp, insert, if_pos rfl]
      · rw [if_neg hp, if_neg hp, if_neg hp]
    by_cases hlt : k < l
    · have hall : ∀ f ∈ restrict p ((l, b) :: rest), k < f.1 := by
        intro f hf
        rcases List.mem_cons.mp (List.mem_filter.mp hf).1 with rfl | hf
        · exact hlt
        · exact String.lt_trans hlt (hfirst f hf)
      rw [insert, if_neg hl, if_pos hlt, restrict_cons, insert_of_forall_lt hall]
    · rw [insert, if_neg hl, if_neg hlt, restrict_cons, restrict_cons, ih hrest]
      by_cases hpl : p l = true
      · rw [if_pos hpl, if_pos hpl]
        by_cases hpk : p k = true
        · rw [if_pos hpk, if_pos hpk, insert, if_neg hl, if_neg hlt]
        · rw [if_neg hpk, if_neg hpk]
      · rw [if_neg hpl, if_neg hpl]

theorem restrict_ofEntries (p : String → Bool) (es : List (String × α)) :
    restrict p (ofEntries es) = ofEntries (restrict p es) := by
  have hfold (d : Keyed α) (h : Ascending d) :
      restrict p (es.foldl (fun d e => insert d e.1 e.2) d) =
        (restrict p es).foldl (fun d e => insert d e.1 e.2) (restrict p d) := by
    induction es generalizing d with
    | nil => rfl
    | cons e rest ih =>
      rw [List.foldl_cons, ih _ (h.insert e.1 e.2), restrict_insert p h, restrict_cons]
      by_cases hp : p e.1 = true
      · rw [if_pos hp, if_pos hp, List.foldl_cons]
      · rw [if_neg hp, if_neg hp]
  exact hfold [] List.Pairwise.nil

/-! ## Other values -/

theorem mapValues_insert (f : α → β) (d : Keyed α) (k : String) (a : α) :
    mapValues f (insert d k a) = insert (mapValues f d) k (f a) := by
  induction d with
  | nil => rfl
  | cons e rest ih =>
    obtain ⟨l, b⟩ := e
    by_cases hl : l = k
    · simp [insert, mapValues, hl]
    by_cases hlt : k < l
    · simp [insert, mapValues, hl, hlt]
    · simpa [insert, mapValues, hl, hlt] using ih

theorem get?_mapValues (f : α → β) (d : Keyed α) (k : String) :
    get? (mapValues f d) k = (get? d k).map f := by
  induction d with
  | nil => rfl
  | cons e rest ih =>
    obtain ⟨l, b⟩ := e
    rw [mapValues, List.map_cons, get?_cons, get?_cons]
    by_cases hl : l = k
    · simp [hl]
    · rw [if_neg hl, if_neg hl]
      exact ih

theorem ascending_mapValues (f : α → β) (h : Ascending d) : Ascending (mapValues f d) :=
  List.pairwise_map.mpr h

/-! ## Entries in pairs -/

theorem rel_get? {R : α → β → Prop} {es : Keyed α} {fs : Keyed β}
    (h : List.Forall₂ (fun e f => e.1 = f.1 ∧ R e.2 f.2) es fs) (k : String) :
    Option.Rel R (get? es k) (get? fs k) := by
  induction h with
  | nil => exact .none
  | @cons e f es fs hef _ ih =>
    obtain ⟨k', x⟩ := e
    obtain ⟨l, y⟩ := f
    obtain ⟨rfl, hxy⟩ := hef
    rw [get?_cons, get?_cons]
    by_cases hk : k' = k
    · rw [if_pos hk, if_pos hk]
      exact .some hxy
    · rw [if_neg hk, if_neg hk]
      exact ih

theorem keys_eq_of_forall₂ {R : α → β → Prop} {es : Keyed α} {fs : Keyed β}
    (h : List.Forall₂ (fun e f => e.1 = f.1 ∧ R e.2 f.2) es fs) : keys es = keys fs := by
  induction h with
  | nil => rfl
  | cons hef _ ih => simp only [keys, List.map_cons, hef.1] at ih ⊢; rw [ih]

end ProviderKit.Keyed
