import ProviderKit.Schema.Basic

-- Induction over schemas: a property of attributes holds when it passes on from what is nested
-- in an attribute, and likewise for blocks.

namespace ProviderKit

variable {β : Type}

section

variable {P : Attribute β → Prop}

mutual
theorem holds_of_nested (h : ∀ a : Attribute β,
    (∀ n, a.nested = some n → ∀ e ∈ n.attributes, P e.2) → P a) : (a : Attribute β) → P a
  | ⟨type, flags, description, nested, default, behaviour⟩ =>
    h ⟨type, flags, description, nested, default, behaviour⟩ (nested_hold_of_nested h nested)

theorem nested_hold_of_nested (h : ∀ a : Attribute β,
    (∀ n, a.nested = some n → ∀ e ∈ n.attributes, P e.2) → P a) :
    (nested : Option (NestedAttributes β)) → ∀ n, nested = some n → ∀ e ∈ n.attributes, P e.2
  | none, _, hn, _, _ => by cases hn
  | some ⟨_, attributes⟩, n, hn, e, he => by
    cases hn
    exact attributes_hold_of_nested h attributes e he

theorem attributes_hold_of_nested (h : ∀ a : Attribute β,
    (∀ n, a.nested = some n → ∀ e ∈ n.attributes, P e.2) → P a) :
    (attributes : List (String × Attribute β)) → ∀ e ∈ attributes, P e.2
  | [], _, he => absurd he List.not_mem_nil
  | (_, b) :: rest, e, he => by
    rcases List.mem_cons.mp he with he | he
    · exact he ▸ holds_of_nested h b
    · exact attributes_hold_of_nested h rest e he
end

end

/-- Induction over the attributes nested in an attribute. -/
@[elab_as_elim]
theorem Attribute.nestedInduction {motive : Attribute β → Prop} (a : Attribute β)
    (step : ∀ a : Attribute β,
      (∀ n, a.nested = some n → ∀ e ∈ n.attributes, motive e.2) → motive a) : motive a :=
  holds_of_nested step a

section

variable {P : Block β → Prop}

mutual
theorem holds_of_blocks (h : ∀ b : Block β, (∀ e ∈ b.blocks, P e.2.block) → P b) :
    (b : Block β) → P b
  | ⟨attributes, blocks, description⟩ =>
    h ⟨attributes, blocks, description⟩ (blocks_hold_of_blocks h blocks)

theorem blocks_hold_of_blocks (h : ∀ b : Block β, (∀ e ∈ b.blocks, P e.2.block) → P b) :
    (blocks : List (String × NestedBlock β)) → ∀ e ∈ blocks, P e.2.block
  | [], _, he => absurd he List.not_mem_nil
  | (_, ⟨b, _, _, _⟩) :: rest, e, he => by
    rcases List.mem_cons.mp he with he | he
    · exact he ▸ holds_of_blocks h b
    · exact blocks_hold_of_blocks h rest e he
end

end

/-- Induction over the blocks nested in a block. -/
@[elab_as_elim]
theorem Block.nestedInduction {motive : Block β → Prop} (b : Block β)
    (step : ∀ b : Block β, (∀ e ∈ b.blocks, motive e.2.block) → motive b) : motive b :=
  holds_of_blocks step b

end ProviderKit
