import ProviderKit.Proofs.Schema.Rebuilt

-- What holds of every node of a schema, at any depth. It holds wherever steps lead to. Where
-- names are distinct at every node, steps lead to all that is declared.

namespace ProviderKit

variable {β : Type}

section

variable (p : Node β → Bool)

mutual
/-- It holds of the attribute and of everything nested in it. -/
def Attribute.every : Attribute β → Bool
  | ⟨type, flags, description, nested, default, behaviour⟩ =>
    p (.attr ⟨type, flags, description, nested, default, behaviour⟩) && nestedEvery nested
def nestedEvery : Option (NestedAttributes β) → Bool
  | none => true
  | some ⟨_, attributes⟩ => p (.nestedObject attributes) && attributesEvery attributes
def attributesEvery : List (String × Attribute β) → Bool
  | [] => true
  | (_, a) :: rest => a.every && attributesEvery rest
end

mutual
def Block.every : Block β → Bool
  | ⟨attributes, blocks, description⟩ =>
    p (.block ⟨attributes, blocks, description⟩) && attributesEvery p attributes
      && blocksEvery blocks
def blocksEvery : List (String × NestedBlock β) → Bool
  | [] => true
  | (_, ⟨block, mode, minItems, maxItems⟩) :: rest =>
    p (.nestedBlock ⟨block, mode, minItems, maxItems⟩) && block.every && blocksEvery rest
end

def Schema.every (s : Schema β) : Bool := s.root.every p

def Node.every : Node β → Bool
  | .block b => b.every p
  | .nestedBlock b => p (.nestedBlock b) && b.block.every p
  | .attr a => a.every p
  | .nestedObject attributes => p (.nestedObject attributes) && attributesEvery p attributes

def View.every : View β → Bool
  | .object attributes blocks => attributesEvery p attributes && blocksEvery p blocks
  | .list e | .set e | .map e => e.every p
  | .atomic _ => true

end

/-- A property of attributes, which says nothing of other nodes. -/
def Node.ifAttribute (p : Attribute β → Bool) : Node β → Bool
  | .attr a => p a
  | _ => true

variable {p : Node β → Bool}

theorem Attribute.every_iff (a : Attribute β) :
    a.every p = true ↔ p (.attr a) = true ∧ nestedEvery p a.nested = true := by
  cases a
  rw [every, Bool.and_eq_true]

theorem Block.every_iff (b : Block β) :
    b.every p = true ↔ p (.block b) = true ∧ attributesEvery p b.attributes = true ∧
      blocksEvery p b.blocks = true := by
  cases b
  rw [every, Bool.and_eq_true, Bool.and_eq_true, and_assoc]

theorem attributesEvery_iff {attributes : List (String × Attribute β)} :
    attributesEvery p attributes = true ↔ ∀ e ∈ attributes, e.2.every p = true := by
  induction attributes with
  | nil => simp [attributesEvery]
  | cons e rest ih => simp [attributesEvery, ih]

theorem blocksEvery_iff {blocks : List (String × NestedBlock β)} :
    blocksEvery p blocks = true ↔
      ∀ e ∈ blocks, (Node.nestedBlock e.2).every p = true := by
  induction blocks with
  | nil => simp [blocksEvery]
  | cons e rest ih =>
    obtain ⟨name, ⟨block, _, _, _⟩⟩ := e
    simp [blocksEvery, Node.every, ih]

theorem Node.self_of_every {n : Node β} (h : n.every p = true) : p n = true := by
  cases n with
  | block b => exact (b.every_iff.mp h).1
  | nestedBlock b => exact (Bool.and_eq_true_iff.mp h).1
  | attr a => exact (a.every_iff.mp h).1
  | nestedObject attributes => exact (Bool.and_eq_true_iff.mp h).1

theorem Node.view_every {n : Node β} (h : n.every p = true) : n.view.every p = true := by
  cases n with
  | block b =>
    obtain ⟨_, ha, hb⟩ := b.every_iff.mp h
    simp [view, View.every, ha, hb]
  | nestedBlock b =>
    obtain ⟨_, hblock⟩ := Bool.and_eq_true_iff.mp h
    obtain ⟨_, ha, hb⟩ := b.block.every_iff.mp hblock
    rw [view]
    cases b.mode <;> simp [collected, View.every, ha, hb, Node.every, hblock]
  | attr a =>
    obtain ⟨_, hnested⟩ := a.every_iff.mp h
    rw [view]
    cases hn : a.nested with
    | none => rfl
    | some nested =>
      obtain ⟨mode, attributes⟩ := nested
      rw [hn, nestedEvery, Bool.and_eq_true] at hnested
      cases mode <;> simp [collected, View.every, Node.every, blocksEvery, hnested]
  | nestedObject attributes =>
    obtain ⟨_, ha⟩ := Bool.and_eq_true_iff.mp h
    simp [view, View.every, blocksEvery, ha]

/-- What holds of every node holds of every node that is declared below. -/
theorem Node.Declares.every {n m : Node β} {s : Step} (h : n.Declares s m)
    (hn : n.every p = true) : m.every p = true := by
  have hview := Node.view_every hn
  cases h with
  | attr hv hm =>
    rw [hv, View.every, Bool.and_eq_true] at hview
    exact attributesEvery_iff.mp hview.1 _ hm
  | block hv hm =>
    rw [hv, View.every, Bool.and_eq_true] at hview
    exact blocksEvery_iff.mp hview.2 _ hm
  | item i hv =>
    rw [hv] at hview
    exact hview
  | element v hv =>
    rw [hv] at hview
    exact hview
  | entry k hv =>
    rw [hv] at hview
    exact hview

/-- It holds of every node at a position and below it. -/
def Position.Every (p : Node β → Bool) (position : Position β) : Prop :=
  ∀ n, position = .described n → n.every p = true

theorem Position.every_described {n : Node β} (h : n.every p = true) :
    Position.Every p (.described n) := by
  intro m hm
  cases hm
  exact h

/-- What holds of every node of a schema holds of a node wherever a walk comes. -/
theorem Position.hereditary_every : Hereditary (Position.Every p) := by
  refine ⟨?_, ?_⟩
  · intro position child hp hc k m hm
    obtain ⟨n, hn, hleads⟩ := leads_of_entryChild hc hm
    exact hleads.declares.every (hp n hn)
  · intro position child hp hc i x m hm
    obtain ⟨n, hn, hleads⟩ := leads_of_itemChild hc hm
    exact hleads.declares.every (hp n hn)

/-! ## Distinct names -/

/-- The names of an object, those of its attributes before those of its blocks. -/
def View.names : View β → List String
  | .object attributes blocks => Keyed.keys attributes ++ Keyed.keys blocks
  | _ => []

/-- No object has a name twice, neither as two attributes nor as an attribute and a block. -/
def Node.hasDistinctNames (n : Node β) : Bool := n.every fun m => decide m.view.names.Nodup

def Schema.hasDistinctNames (s : Schema β) : Bool := (Node.block s.root).hasDistinctNames

/-- Where names are distinct, a step leads to what it declares. -/
theorem Node.Declares.leads {n m : Node β} {s : Step} (h : n.Declares s m)
    (hn : n.hasDistinctNames = true) : n.Leads s m := by
  have hnames : n.view.names.Nodup := of_decide_eq_true (Node.self_of_every hn)
  cases h with
  | attr hv hm =>
    rw [hv, View.names, List.nodup_append] at hnames
    refine .member hv ?_
    rw [Node.member?, Keyed.get?_of_mem_of_nodup hnames.1 hm]
  | block hv hm =>
    rw [hv, View.names, List.nodup_append] at hnames
    refine .member hv ?_
    have hnone : Keyed.get? _ _ = none := Keyed.get?_eq_none_of_not_mem_keys fun hmem =>
      hnames.2.2 _ hmem _ (List.mem_map_of_mem (f := (·.1)) hm) rfl
    rw [Node.member?, hnone, Keyed.get?_of_mem_of_nodup hnames.2.1 hm]
    rfl
  | item i hv => exact .item i hv
  | element v hv => exact .element v hv
  | entry k hv => exact .entry k hv

end ProviderKit
