-- Dictionaries with text keys. A dictionary is a list of entries in ascending key
-- order, so two dictionaries with the same entries are the same list, and everything
-- that walks a dictionary meets its keys in one fixed order.

namespace ProviderKit

/-- A dictionary with text keys, as its list of entries. -/
abbrev Keyed (α : Type) := List (String × α)

namespace Keyed

variable {α β : Type}

/-- The keys ascend strictly, by code point, so no key occurs twice. -/
def Ascending (entries : Keyed α) : Prop :=
  entries.Pairwise fun a b => a.1 < b.1

/-- The value stored under a key. -/
def get? : Keyed α → String → Option α
  | [], _ => none
  | (k, a) :: rest, key => if k = key then some a else get? rest key

/-- Store a value under a key, at the key's place in the order; a value stored there
before is replaced. -/
def insert : Keyed α → String → α → Keyed α
  | [], key, value => [(key, value)]
  | (k, a) :: rest, key, value =>
    if k = key then (key, value) :: rest
    else if key < k then (key, value) :: (k, a) :: rest
    else (k, a) :: insert rest key value

/-- Take out the entry of a key. -/
def erase (entries : Keyed α) (key : String) : Keyed α :=
  entries.filter fun e => !(e.1 = key)

/-- Store a value under a key that is not there yet. -/
def insertNew (entries : Keyed α) (key : String) (value : α) : Keyed α :=
  match get? entries key with
  | some _ => entries
  | none => insert entries key value

/-- The dictionary of a list of entries in any order; of two entries with one key the
later counts. -/
def ofEntries (entries : List (String × α)) : Keyed α :=
  entries.foldl (fun d e => insert d e.1 e.2) []

/-- The keys, ascending. -/
def keys (entries : Keyed α) : List String := entries.map (·.1)

/-- The same keys with each value replaced. -/
def mapValues (f : α → β) (entries : Keyed α) : Keyed β :=
  entries.map fun e => (e.1, f e.2)

/-! ## Looking up after storing -/

@[simp] theorem get?_nil (key : String) : get? ([] : Keyed α) key = none := rfl

theorem get?_cons (k : String) (a : α) (rest : Keyed α) (key : String) :
    get? ((k, a) :: rest) key = if k = key then some a else get? rest key := rfl

@[simp] theorem get?_insert_self (d : Keyed α) (key : String) (value : α) :
    get? (insert d key value) key = some value := by
  induction d with
  | nil => simp [insert, get?]
  | cons e rest ih =>
    obtain ⟨k, a⟩ := e
    unfold insert
    split
    · simp [get?]
    · split
      · simp [get?]
      · next h _ => simp [get?, h, ih]

theorem get?_insert_of_ne (d : Keyed α) {key other : String} (value : α) (h : other ≠ key) :
    get? (insert d key value) other = get? d other := by
  induction d with
  | nil => simp [insert, get?, h.symm]
  | cons e rest ih =>
    obtain ⟨k, a⟩ := e
    unfold insert
    split
    · next hk => subst hk; simp [get?, h.symm]
    · split
      · simp [get?, h.symm]
      · simp [get?, ih]

/-! ## What is stored -/

theorem mem_insert {d : Keyed α} {key : String} {value : α} {e : String × α}
    (h : e ∈ insert d key value) : e = (key, value) ∨ e ∈ d := by
  induction d with
  | nil => simpa [insert] using h
  | cons f rest ih =>
    obtain ⟨k, a⟩ := f
    unfold insert at h
    split at h
    · simp only [List.mem_cons] at h ⊢
      rcases h with h | h
      · exact .inl h
      · exact .inr (.inr h)
    · split at h
      · simpa using h
      · simp only [List.mem_cons] at h ⊢
        rcases h with h | h
        · exact .inr (.inl h)
        · rcases ih h with h | h
          · exact .inl h
          · exact .inr (.inr h)

theorem Ascending.insert {d : Keyed α} (h : Ascending d) (key : String) (value : α) :
    Ascending (insert d key value) := by
  unfold Ascending at h ⊢
  induction d with
  | nil => simp [Keyed.insert]
  | cons f rest ih =>
    obtain ⟨k, a⟩ := f
    rw [List.pairwise_cons] at h
    unfold Keyed.insert
    split
    · next hk => subst hk; exact List.pairwise_cons.2 ⟨h.1, h.2⟩
    · next hne =>
      split
      · next hlt =>
        refine List.pairwise_cons.2 ⟨?_, List.pairwise_cons.2 h⟩
        intro e he
        rcases List.mem_cons.1 he with rfl | he
        · exact hlt
        · exact String.lt_trans hlt (h.1 e he)
      · next hge =>
        refine List.pairwise_cons.2 ⟨?_, ih h.2⟩
        intro e he
        rcases mem_insert he with rfl | he
        · exact Std.lt_of_le_of_ne (Std.not_lt.1 hge) hne
        · exact h.1 e he

theorem Ascending.erase {d : Keyed α} (h : Ascending d) (key : String) :
    Ascending (erase d key) := List.Pairwise.filter _ h

theorem mem_of_mem_erase {d : Keyed α} {key : String} {e : String × α} (h : e ∈ erase d key) :
    e ∈ d := (List.mem_filter.1 h).1

end Keyed

end ProviderKit
