import ProviderKit.Value.Access

-- The contents of values: induction over what lists and maps hold, dictionaries looked up
-- by key, and the value that steps lead to.

namespace ProviderKit

/-! ## Related options -/

theorem exists_of_rel_some_left {α γ : Type} {R : α → γ → Prop} {a : α} {o : Option γ}
    (h : Option.Rel R (some a) o) : ∃ c, o = some c ∧ R a c := by
  cases h with
  | some h => exact ⟨_, rfl, h⟩

theorem exists_of_rel_some_right {α γ : Type} {R : α → γ → Prop} {o : Option α} {c : γ}
    (h : Option.Rel R o (some c)) : ∃ a, o = some a ∧ R a c := by
  cases h with
  | some h => exact ⟨_, rfl, h⟩

/-! ## Dictionaries -/

namespace Keyed

variable {α β : Type}

theorem mem_of_get? {es : Keyed α} {k : String} {a : α} (h : get? es k = some a) :
    (k, a) ∈ es := by
  induction es with
  | nil => simp at h
  | cons e rest ih =>
    obtain ⟨l, b⟩ := e
    rw [get?_cons] at h
    by_cases hl : l = k
    · rw [if_pos hl] at h
      cases h
      rw [hl]
      exact List.mem_cons_self
    · rw [if_neg hl] at h
      exact List.mem_cons_of_mem _ (ih h)

theorem mem_keys_of_get? {es : Keyed α} {k : String} {a : α} (h : get? es k = some a) :
    k ∈ keys es := List.mem_map_of_mem (f := (·.1)) (mem_of_get? h)

theorem exists_get?_of_mem_keys {es : Keyed α} {k : String} (h : k ∈ keys es) :
    ∃ a, get? es k = some a := by
  induction es with
  | nil => cases h
  | cons e rest ih =>
    obtain ⟨l, a⟩ := e
    rw [get?_cons]
    by_cases hl : l = k
    · exact ⟨a, if_pos hl⟩
    · rw [if_neg hl]
      exact ih ((List.mem_cons.mp h).resolve_left (Ne.symm hl))

/-- In a dictionary, an entry is the one found under its key. -/
theorem get?_of_mem {es : Keyed α} (ha : Ascending es) {k : String} {a : α} (h : (k, a) ∈ es) :
    get? es k = some a := by
  unfold Ascending at ha
  induction es with
  | nil => simp at h
  | cons e rest ih =>
    obtain ⟨l, b⟩ := e
    rw [List.pairwise_cons] at ha
    rw [get?_cons]
    rcases List.mem_cons.mp h with h | h
    · cases h
      exact if_pos rfl
    · have hne : l ≠ k := fun he => String.lt_irrefl k (he ▸ ha.1 _ h)
      rw [if_neg hne]
      exact ih ha.2 h

/-- So it is wherever no key stands twice. -/
theorem get?_of_mem_of_nodup {es : Keyed α} (hes : (keys es).Nodup) {k : String}
    {a : α} (h : (k, a) ∈ es) : get? es k = some a := by
  induction es with
  | nil => simp at h
  | cons e rest ih =>
    obtain ⟨l, b⟩ := e
    rw [keys, List.map_cons, List.nodup_cons] at hes
    rw [get?_cons]
    rcases List.mem_cons.mp h with h | h
    · cases h
      exact if_pos rfl
    · have hne : l ≠ k := fun he => hes.1 (he ▸ List.mem_map_of_mem (f := (·.1)) h)
      rw [if_neg hne]
      exact ih hes.2 h

theorem get?_eq_none_of_not_mem_keys {es : Keyed α} {k : String}
    (h : k ∉ keys es) : get? es k = none := by
  cases hk : get? es k with
  | none => rfl
  | some a => exact absurd (mem_keys_of_get? hk) h

/-- Storing what is there already changes nothing. -/
theorem insert_of_get? {es : Keyed α} (ha : Ascending es) {k : String} {a : α}
    (h : get? es k = some a) : insert es k a = es := by
  unfold Ascending at ha
  induction es with
  | nil => simp at h
  | cons e rest ih =>
    obtain ⟨l, b⟩ := e
    rw [List.pairwise_cons] at ha
    rw [get?_cons] at h
    unfold insert
    by_cases hl : l = k
    · rw [if_pos hl] at h ⊢
      cases h
      rw [hl]
    · rw [if_neg hl] at h ⊢
      have hlt : l < k := ha.1 _ (mem_of_get? h)
      rw [if_neg (fun hgt => String.lt_irrefl k (String.lt_trans hgt hlt)), ih ha.2 h]

/-- Storing something else changes a dictionary. -/
theorem insert_eq_self_iff {es : Keyed α} (ha : Ascending es) {k : String} {a b : α}
    (h : get? es k = some a) : insert es k b = es ↔ b = a := by
  constructor
  · intro heq
    have hget := get?_insert_self es k b
    rw [heq, h] at hget
    exact (Option.some.inj hget).symm
  · intro hb
    rw [hb, insert_of_get? ha h]

/-- So does storing under a new key. -/
theorem insert_ne_self {es : Keyed α} {k : String} (h : get? es k = none) (a : α) :
    insert es k a ≠ es := by
  intro heq
  have hget := get?_insert_self es k a
  rw [heq, h] at hget
  cases hget

/-- Dictionaries with the same entries are equal. -/
theorem eq_of_get?_eq {es fs : Keyed α} (hes : Ascending es) (hfs : Ascending fs)
    (h : ∀ k, get? es k = get? fs k) : es = fs := by
  have hmem : ∀ e, e ∈ es ↔ e ∈ fs := by
    intro e
    constructor
    · intro he
      exact mem_of_get? ((h e.1).symm.trans (get?_of_mem hes he))
    · intro he
      exact mem_of_get? ((h e.1).trans (get?_of_mem hfs he))
  have hnodup : ∀ gs : Keyed α, Ascending gs → gs.Nodup := by
    intro gs hgs
    refine List.Pairwise.imp (fun {e f} hlt heq => ?_) hgs
    rw [heq] at hlt
    exact String.lt_irrefl _ hlt
  have hperm : es.Perm fs := (List.perm_ext_iff_of_nodup (hnodup es hes) (hnodup fs hfs)).mpr hmem
  refine hperm.eq_of_pairwise (fun e f _ _ hef hfe => ?_) hes hfs
  exact absurd (String.lt_trans hef hfe) (String.lt_irrefl _)

end Keyed

namespace Value

/-! ## Induction over contents -/

/-- Neither a list nor a map. -/
def isAtom : Value → Bool
  | .list _ => false
  | .map _ => false
  | _ => true

theorem eq_null_of_isNull {v : Value} (h : v.isNull = true) : v = .null := by
  cases v
  case null => rfl
  all_goals cases h

theorem eq_unknown_of_isUnknown {v : Value} (h : v.isUnknown = true) : v = .unknown := by
  cases v
  case unknown => rfl
  all_goals cases h

theorem isKnown_iff {v : Value} : v.isKnown = true ↔ v.isNull = false ∧ v.isUnknown = false := by
  rw [isKnown, Bool.and_eq_true, Bool.not_eq_true', Bool.not_eq_true']

theorem eq_null_or_eq_unknown {v : Value} (h : v.isKnown = false) : v = .null ∨ v = .unknown := by
  cases v with
  | null => exact .inl rfl
  | unknown => exact .inr rfl
  | string _ | number _ | bool _ | list _ | map _ => cases h

section

variable {P : Value → Prop}

mutual
theorem holds_of_contents (atom : ∀ v, v.isAtom = true → P v)
    (list : ∀ xs, (∀ x ∈ xs, P x) → P (.list xs))
    (map : ∀ es, (∀ e ∈ es, P e.2) → P (.map es)) : (v : Value) → P v
  | .null => atom _ rfl
  | .unknown => atom _ rfl
  | .bool _ => atom _ rfl
  | .number _ => atom _ rfl
  | .string _ => atom _ rfl
  | .list xs => list xs (items_hold_of_contents atom list map xs)
  | .map es => map es (entries_hold_of_contents atom list map es)

theorem items_hold_of_contents (atom : ∀ v, v.isAtom = true → P v)
    (list : ∀ xs, (∀ x ∈ xs, P x) → P (.list xs))
    (map : ∀ es, (∀ e ∈ es, P e.2) → P (.map es)) : (xs : List Value) → ∀ x ∈ xs, P x
  | [], _, h => absurd h List.not_mem_nil
  | y :: ys, x, h => by
    rcases List.mem_cons.mp h with h | h
    · exact h ▸ holds_of_contents atom list map y
    · exact items_hold_of_contents atom list map ys x h

theorem entries_hold_of_contents (atom : ∀ v, v.isAtom = true → P v)
    (list : ∀ xs, (∀ x ∈ xs, P x) → P (.list xs))
    (map : ∀ es, (∀ e ∈ es, P e.2) → P (.map es)) :
    (es : List (String × Value)) → ∀ e ∈ es, P e.2
  | [], _, h => absurd h List.not_mem_nil
  | (_, y) :: fs, e, h => by
    rcases List.mem_cons.mp h with h | h
    · exact h ▸ holds_of_contents atom list map y
    · exact entries_hold_of_contents atom list map fs e h
end

/-- Induction over the contents of a value. -/
@[elab_as_elim]
theorem contentsInduction {motive : Value → Prop} (v : Value)
    (atom : ∀ v, v.isAtom = true → motive v)
    (list : ∀ xs, (∀ x ∈ xs, motive x) → motive (.list xs))
    (map : ∀ es, (∀ e ∈ es, motive e.2) → motive (.map es)) : motive v :=
  holds_of_contents atom list map v

end

/-- A list encloses its items, and a map the values of its entries. -/
inductive Encloses : Value → Value → Prop
  | item {xs : List Value} {x : Value} : x ∈ xs → Encloses (.list xs) x
  | entry {es : List (String × Value)} {e : String × Value} : e ∈ es → Encloses (.map es) e.2

/-- Induction over the contents of a value, whether it is a list, a map or neither. -/
@[elab_as_elim]
theorem enclosureInduction {motive : Value → Prop} (v : Value)
    (whole : ∀ v, (∀ x, v.Encloses x → motive x) → motive v) : motive v := by
  induction v using contentsInduction with
  | atom v hv =>
    refine whole v fun x hx => ?_
    cases hx <;> cases hv
  | list xs ih =>
    refine whole _ fun x hx => ?_
    cases hx with
    | item hx => exact ih x hx
  | map es ih =>
    refine whole _ fun x hx => ?_
    cases hx with
    | entry he => exact ih _ he

/-! ## Following steps -/

/-- The value that steps lead to. -/
def reach? : Value → List Step → Option Value
  | v, [] => some v
  | v, s :: steps => (v.step? s).bind fun next => next.reach? steps

@[simp] theorem reach?_nil (v : Value) : v.reach? [] = some v := rfl

theorem reach?_append (v : Value) (ss ts : List Step) :
    v.reach? (ss ++ ts) = (v.reach? ss).bind fun next => next.reach? ts := by
  induction ss generalizing v with
  | nil => rfl
  | cons s ss ih =>
    simp only [List.cons_append, reach?, Option.bind_assoc]
    cases v.step? s with
    | none => rfl
    | some next => exact ih next

theorem reach?_push (v : Value) (path : Path) (s : Step) :
    v.reach? (path.push s).steps = (v.reach? path.steps).bind (·.step? s) := by
  rw [Path.push_steps, reach?_append]
  congr
  funext next
  simp [reach?]

theorem follow_eq_ok_iff (v w : Value) (walked : Path) (steps : List Step) :
    v.follow walked steps = .ok w ↔ v.reach? steps = some w := by
  induction steps generalizing v walked with
  | nil => simp [follow]
  | cons s steps ih =>
    unfold follow reach?
    cases v.step? s with
    | none => simp
    | some next => simpa using ih next (walked.push s)

theorem atPath_eq_ok_iff (v w : Value) (path : Path) :
    v.atPath path = .ok w ↔ v.reach? path.steps = some w := follow_eq_ok_iff v w _ _

end Value

end ProviderKit
