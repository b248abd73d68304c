import ProviderKit.Proofs.Schema.Leads

-- What is attached to the attributes of a schema, at any depth. A step through the schema leads to
-- nothing that is not attached to it somewhere.

namespace ProviderKit

variable {β : Type}

mutual
/-- What is attached to an attribute and to everything nested in it. -/
def Attribute.behaviours : Attribute β → List β
  | ⟨_, _, _, nested, _, behaviour⟩ => behaviour :: nestedBehaviours nested
def nestedBehaviours : Option (NestedAttributes β) → List β
  | none => []
  | some ⟨_, attributes⟩ => attributesBehaviours attributes
def attributesBehaviours : List (String × Attribute β) → List β
  | [] => []
  | (_, a) :: rest => a.behaviours ++ attributesBehaviours rest
end

mutual
def Block.behaviours : Block β → List β
  | ⟨attributes, blocks, _⟩ => attributesBehaviours attributes ++ blocksBehaviours blocks
def blocksBehaviours : List (String × NestedBlock β) → List β
  | [] => []
  | (_, ⟨block, _, _, _⟩) :: rest => block.behaviours ++ blocksBehaviours rest
end

/-- What is attached to the attributes of a schema. -/
def Schema.behaviours (s : Schema β) : List β := s.root.behaviours

def Node.behaviours : Node β → List β
  | .block b => b.behaviours
  | .nestedBlock b => b.block.behaviours
  | .attr a => a.behaviours
  | .nestedObject attributes => attributesBehaviours attributes

def View.behaviours : View β → List β
  | .object attributes blocks => attributesBehaviours attributes ++ blocksBehaviours blocks
  | .list e | .set e | .map e => e.behaviours
  | .atomic _ => []

theorem Attribute.behaviours_eq (a : Attribute β) :
    a.behaviours = a.behaviour :: nestedBehaviours a.nested := by
  cases a
  rw [behaviours]

theorem Block.behaviours_eq (b : Block β) :
    b.behaviours = attributesBehaviours b.attributes ++ blocksBehaviours b.blocks := by
  cases b
  rw [behaviours]

theorem mem_attributesBehaviours {b : β} {attributes : List (String × Attribute β)} :
    b ∈ attributesBehaviours attributes ↔ ∃ e ∈ attributes, b ∈ e.2.behaviours := by
  induction attributes with
  | nil => simp [attributesBehaviours]
  | cons e rest ih => simp [attributesBehaviours, ih]

theorem mem_blocksBehaviours {b : β} {blocks : List (String × NestedBlock β)} :
    b ∈ blocksBehaviours blocks ↔ ∃ e ∈ blocks, b ∈ e.2.block.behaviours := by
  induction blocks with
  | nil => simp [blocksBehaviours]
  | cons e rest ih =>
    obtain ⟨name, ⟨block, _, _, _⟩⟩ := e
    simp [blocksBehaviours, ih]

/-- A node shows what is attached below it, and hides at most what is attached to itself. -/
theorem Node.view_behaviours (n : Node β) : n.view.behaviours ⊆ n.behaviours := by
  cases n with
  | block b =>
    rw [Node.behaviours, b.behaviours_eq]
    exact fun _ h => h
  | nestedBlock b =>
    rw [view, Node.behaviours]
    cases b.mode with
    | single =>
      rw [b.block.behaviours_eq]
      exact fun _ h => h
    | list => exact fun _ h => h
    | set => exact fun _ h => h
    | map => exact fun _ h => h
  | attr a =>
    rw [view, Node.behaviours, a.behaviours_eq]
    cases a.nested with
    | none => exact List.nil_subset _
    | some nested =>
      obtain ⟨mode, attributes⟩ := nested
      refine List.subset_cons_of_subset _ ?_
      rw [nestedBehaviours]
      cases mode with
      | single => simp [collected, View.behaviours, blocksBehaviours]
      | list => exact fun _ h => h
      | set => exact fun _ h => h
      | map => exact fun _ h => h
  | nestedObject attributes => simp [view, View.behaviours, blocksBehaviours, Node.behaviours]

/-- What is attached below a declared node is attached below the node that declares it. -/
theorem Node.Declares.behaviours {n m : Node β} {s : Step} (h : n.Declares s m) :
    m.behaviours ⊆ n.behaviours := by
  refine List.Subset.trans ?_ n.view_behaviours
  cases h with
  | attr hv hm =>
    rw [hv]
    exact fun b hb => List.mem_append_left _ (mem_attributesBehaviours.mpr ⟨_, hm, hb⟩)
  | block hv hm =>
    rw [hv]
    exact fun b hb => List.mem_append_right _ (mem_blocksBehaviours.mpr ⟨_, hm, hb⟩)
  | item i hv =>
    rw [hv]
    exact fun b hb => hb
  | element v hv =>
    rw [hv]
    exact fun b hb => hb
  | entry k hv =>
    rw [hv]
    exact fun b hb => hb

end ProviderKit
