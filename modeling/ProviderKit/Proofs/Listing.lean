-- Lists of all things of a sort, in the order of the places where they stand. Such a list grows
-- place by place, and there is only one.

namespace ProviderKit

variable {α : Type} {place : α → Nat} {P Q : α → Prop} {xs ys : List α}

/-- The list has all things of a sort, each once, by ascending places. -/
structure Lists (place : α → Nat) (P : α → Prop) (xs : List α) : Prop where
  ordered : xs.Pairwise fun x y => place x < place y
  mem_iff : ∀ x, x ∈ xs ↔ P x

/-- What stands in a list with one more thing at its end. -/
theorem getElem?_snoc_eq_some_iff {a b : α} {i : Nat} :
    (xs ++ [a])[i]? = some b ↔ xs[i]? = some b ∨ (i = xs.length ∧ a = b) := by
  rcases Nat.lt_trichotomy i xs.length with hi | rfl | hi
  · rw [List.getElem?_append_left hi]
    simp [Nat.ne_of_lt hi]
  · simp
  · have hout : (xs ++ [a]).length ≤ i := by
      rw [List.length_append, List.length_singleton]
      omega
    rw [List.getElem?_eq_none hout, List.getElem?_eq_none (Nat.le_of_lt hi)]
    simp [Nat.ne_of_gt hi]

namespace Lists

theorem of_none (h : ∀ x, ¬ P x) : Lists place P [] where
  ordered := List.Pairwise.nil
  mem_iff x := by simp [h x]

/-- What comes up at one more place is put behind all that came before it. -/
theorem snoc (h : Lists place P xs) (new : Option α)
    (hlater : ∀ x y, P x → new = some y → place x < place y)
    (hiff : ∀ x, Q x ↔ P x ∨ new = some x) : Lists place Q (xs ++ new.toList) := by
  constructor
  · rw [List.pairwise_append]
    refine ⟨h.ordered, ?_, ?_⟩
    · cases new <;> simp
    · intro x hx y hy
      exact hlater x y ((h.mem_iff x).mp hx) (by simpa using hy)
  · intro x
    rw [List.mem_append, h.mem_iff, hiff]
    simp

theorem eq_nil_iff (h : Lists place P xs) : xs = [] ↔ ∀ x, ¬ P x := by
  simp [List.eq_nil_iff_forall_not_mem, h.mem_iff]

theorem nodup (h : Lists place P xs) : xs.Nodup := by
  apply h.ordered.imp
  intro x y hlt heq
  rw [heq] at hlt
  exact Nat.lt_irrefl _ hlt

/-- There is one such list. -/
theorem unique (hx : Lists place P xs) (hy : Lists place P ys) : xs = ys := by
  have hperm : xs.Perm ys := by
    rw [List.perm_ext_iff_of_nodup hx.nodup hy.nodup]
    intro x
    rw [hx.mem_iff, hy.mem_iff]
  apply hperm.eq_of_pairwise _ hx.ordered hy.ordered
  intro x y _ _ hlt hgt
  exact absurd hgt (Nat.lt_asymm hlt)

end Lists

end ProviderKit
