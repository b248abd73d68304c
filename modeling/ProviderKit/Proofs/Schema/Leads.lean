import ProviderKit.Proofs.Value.Contents
import ProviderKit.Schema.Walk

-- How the nodes of a schema follow from one another, one step at a time. The path of a node
-- and the positions that a walk meets are both made of these steps.

namespace ProviderKit

variable {β : Type}

/-! ## One step -/

/-- A step leads from a node to the node right below it. -/
inductive Node.Leads (n : Node β) : Step → Node β → Prop
  | member {attributes blocks name m} : n.view = .object attributes blocks →
      Node.member? attributes blocks name = some m → Leads n (.field name) m
  | item {m} (i : Nat) : n.view = .list m → Leads n (.index i) m
  | element {m} (v : Value) : n.view = .set m → Leads n (.element v) m
  | entry {m} (k : String) : n.view = .map m → Leads n (.key k) m

/-- A step leads from a node to a node that it declares. Where a name is declared twice, as two
attributes or as an attribute and a block, the step of that name does not lead to both. -/
inductive Node.Declares (n : Node β) : Step → Node β → Prop
  | attr {attributes blocks name a} : n.view = .object attributes blocks →
      (name, a) ∈ attributes → Declares n (.field name) (.attr a)
  | block {attributes blocks name b} : n.view = .object attributes blocks →
      (name, b) ∈ blocks → Declares n (.field name) (.nestedBlock b)
  | item {m} (i : Nat) : n.view = .list m → Declares n (.index i) m
  | element {m} (v : Value) : n.view = .set m → Declares n (.element v) m
  | entry {m} (k : String) : n.view = .map m → Declares n (.key k) m

theorem Node.Leads.declares {n m : Node β} {s : Step} (h : n.Leads s m) : n.Declares s m := by
  cases h with
  | @member attributes blocks name m hv hm =>
    unfold member? at hm
    cases ha : Keyed.get? attributes name with
    | some a =>
      rw [ha] at hm
      cases hm
      exact .attr hv (Keyed.mem_of_get? ha)
    | none =>
      rw [ha] at hm
      obtain ⟨b, hb, rfl⟩ := Option.map_eq_some_iff.mp hm
      exact .block hv (Keyed.mem_of_get? hb)
  | item i hv => exact .item i hv
  | element v hv => exact .element v hv
  | entry k hv => exact .entry k hv

section

variable {n m k : Node β} {s : Step}

theorem Node.Declares.of_list (h : n.Declares s k) (hv : n.view = .list m) :
    ∃ i, s = .index i ∧ k = m := by
  cases h <;> simp_all

theorem Node.Declares.of_map (h : n.Declares s k) (hv : n.view = .map m) :
    ∃ l, s = .key l ∧ k = m := by
  cases h <;> simp_all

theorem Node.Declares.of_object {attributes : List (String × Attribute β)}
    {blocks : List (String × NestedBlock β)} (h : n.Declares s k)
    (hv : n.view = .object attributes blocks) :
    (∃ e ∈ attributes, s = .field e.1 ∧ k = .attr e.2) ∨
      ∃ e ∈ blocks, s = .field e.1 ∧ k = .nestedBlock e.2 := by
  cases h <;> simp_all

theorem Node.Declares.view_ne_atomic (h : n.Declares s k) (type : AttributeType) :
    n.view ≠ .atomic type := by
  cases h <;> simp_all

end

/-- Inside an atomic attribute there are no nodes. -/
theorem Node.not_leads_of_atomic {n m : Node β} {type : AttributeType} (hv : n.view = .atomic type)
    {s : Step} : ¬ n.Leads s m := by
  intro h
  exact h.declares.view_ne_atomic type hv

theorem stepFrom_eq_ok_iff {whole walked : Path} {n m : Node β} {s : Step} :
    Schema.stepFrom whole walked n s = .ok m ↔ n.Leads s m := by
  unfold Schema.stepFrom
  constructor
  · intro h
    split at h
    · next hv =>
      split at h
      · next hm =>
        cases h
        exact .member hv hm
      · cases h
    · next hv => cases h; exact .item _ hv
    · next hv => cases h; exact .element _ hv
    · next hv => cases h; exact .entry _ hv
    · cases h
    · cases h
  · intro h
    cases h with
    | member hv hm => simp only [hv, hm]
    | item i hv => simp only [hv]
    | element v hv => simp only [hv]
    | entry k hv => simp only [hv]

/-! ## Many steps -/

/-- Steps lead from a node to a node further down. -/
def Node.Reaches : Node β → List Step → Node β → Prop
  | n, [], m => n = m
  | n, s :: steps, m => ∃ next, n.Leads s next ∧ next.Reaches steps m

theorem Node.reaches_append {n m : Node β} {ss ts : List Step} :
    n.Reaches (ss ++ ts) m ↔ ∃ next, n.Reaches ss next ∧ next.Reaches ts m := by
  induction ss generalizing n with
  | nil => simp [Reaches]
  | cons s ss ih =>
    simp only [List.cons_append, Reaches, ih]
    constructor
    · rintro ⟨k, hk, next, hnext, hm⟩
      exact ⟨next, ⟨k, hk, hnext⟩, hm⟩
    · rintro ⟨next, ⟨k, hk, hnext⟩, hm⟩
      exact ⟨k, hk, next, hnext, hm⟩

theorem follow_eq_ok_iff_reaches {whole walked : Path} {n m : Node β} {steps : List Step} :
    Schema.follow whole walked n steps = .ok m ↔ n.Reaches steps m := by
  induction steps generalizing n walked with
  | nil => simp [Schema.follow, Node.Reaches]
  | cons s steps ih =>
    simp only [Schema.follow, Node.Reaches, bind, Except.bind]
    constructor
    · intro h
      split at h
      · cases h
      · next k hk => exact ⟨k, stepFrom_eq_ok_iff.mp hk, ih.mp h⟩
    · rintro ⟨k, hk, hm⟩
      rw [stepFrom_eq_ok_iff.mpr hk]
      exact ih.mpr hm

theorem nodeAt_eq_ok_iff {s : Schema β} {path : Path} {n : Node β} :
    s.nodeAt path = .ok n ↔ (Node.block s.root).Reaches path.steps n := follow_eq_ok_iff_reaches

/-- The node below the node at a path. -/
theorem nodeAt_push {s : Schema β} {path : Path} {n m : Node β} {step : Step}
    (hn : s.nodeAt path = .ok n) (hm : n.Leads step m) : s.nodeAt (path.push step) = .ok m := by
  rw [nodeAt_eq_ok_iff] at hn ⊢
  rw [Path.push_steps, Node.reaches_append]
  exact ⟨n, hn, m, hm, rfl⟩

/-! ## Positions below -/

namespace Position

variable {position : Position β}

/-- A described entry continues a described position. -/
theorem leads_of_entryChild {child : String → Child β} (h : position.entryChild = some child)
    {k : String} {m : Node β} (hm : (child k).position = .described m) :
    ∃ n, position = .described n ∧ n.Leads (child k).step m := by
  have hatomic : ∀ type, child ≠ entryChild.atomicEntry (β := β) type := by
    rintro type rfl
    obtain ⟨inner, hinner⟩ := exists_atomicEntry_position (β := β) type k
    rw [hinner] at hm
    cases hm
  cases position with
  | described n =>
    refine ⟨n, rfl, ?_⟩
    simp only [entryChild] at h
    cases hv : n.view with
    | object attributes blocks =>
      simp only [hv, Option.some.injEq] at h
      subst h
      cases hk : Node.member? attributes blocks k with
      | none => simp [hk] at hm
      | some member =>
        simp only [hk, described.injEq] at hm ⊢
        subst hm
        exact .member hv hk
    | map element =>
      simp only [hv, Option.some.injEq] at h
      subst h
      cases hm
      exact .entry k hv
    | list element => simp [hv] at h
    | set element => simp [hv] at h
    | atomic type =>
      simp only [hv, Option.some.injEq] at h
      exact absurd h.symm (hatomic _)
  | atomic type => exact absurd (Option.some.inj h).symm (hatomic _)
  | undeclared => exact absurd (Option.some.inj h).symm (hatomic _)

/-- A described item continues a described position. -/
theorem leads_of_itemChild {child : Nat → Value → Child β} (h : position.itemChild = some child)
    {i : Nat} {x : Value} {m : Node β} (hm : (child i x).position = .described m) :
    ∃ n, position = .described n ∧ n.Leads (child i x).step m := by
  have hatomic : ∀ type, child ≠ itemChild.atomicItem (β := β) type := by
    rintro type rfl
    obtain ⟨inner, hinner⟩ := exists_atomicItem_position (β := β) type i x
    rw [hinner] at hm
    cases hm
  cases position with
  | described n =>
    refine ⟨n, rfl, ?_⟩
    simp only [itemChild] at h
    cases hv : n.view with
    | list element =>
      simp only [hv, Option.some.injEq] at h
      subst h
      cases hm
      exact .item i hv
    | set element =>
      simp only [hv, Option.some.injEq] at h
      subst h
      cases hm
      exact .element x hv
    | object attributes blocks => simp [hv] at h
    | map element => simp [hv] at h
    | atomic type =>
      simp only [hv, Option.some.injEq] at h
      exact absurd h.symm (hatomic _)
  | atomic type => exact absurd (Option.some.inj h).symm (hatomic _)
  | undeclared => exact absurd (Option.some.inj h).symm (hatomic _)

/-- A step to an entry names the position that a walk goes on with. -/
theorem entryChild_of_leads {n m : Node β} {s : Step} (hs : n.Leads s m) {child : String → Child β}
    (h : (described n).entryChild = some child) {k : String} (hk : s = .field k ∨ s = .key k) :
    child k = ⟨s, .described m⟩ := by
  simp only [entryChild] at h
  cases hs with
  | member hv hm =>
    simp only [hv, Option.some.injEq] at h
    obtain rfl : _ = k := by simpa using hk
    rw [← h]
    simp only [hm]
  | entry _ hv =>
    simp only [hv, Option.some.injEq] at h
    obtain rfl : _ = k := by simpa using hk
    rw [← h]
  | item i hv => simp [hv] at h
  | element v hv => simp [hv] at h

/-- A step to an item names the position that a walk goes on with. -/
theorem itemChild_of_leads {n m : Node β} {s : Step} (hs : n.Leads s m)
    {child : Nat → Value → Child β} (h : (described n).itemChild = some child) {i : Nat}
    {x : Value} (hi : s = .index i ∨ s = .element x) : child i x = ⟨s, .described m⟩ := by
  simp only [itemChild] at h
  cases hs with
  | item _ hv =>
    simp only [hv, Option.some.injEq] at h
    obtain rfl : _ = i := by simpa using hi
    rw [← h]
  | element _ hv =>
    simp only [hv, Option.some.injEq] at h
    obtain rfl : _ = x := by simpa using hi
    rw [← h]
  | member hv hm => simp [hv] at h
  | entry k hv => simp [hv] at h

end Position

end ProviderKit
