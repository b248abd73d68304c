import ProviderKit.Proofs.Schema.Every
import ProviderKit.Proofs.Schema.Nesting

-- A schema describes values in the same way whatever its attributes carry: forgetting or
-- changing what they carry changes no step and no property of what else there is.

namespace ProviderKit

variable {β γ : Type} (f : β → γ)

/-! ## Nodes -/

def NestedBlock.mapBehaviour : NestedBlock β → NestedBlock γ
  | ⟨block, mode, minItems, maxItems⟩ => ⟨block.mapBehaviour f, mode, minItems, maxItems⟩

def Node.mapBehaviour : Node β → Node γ
  | .block b => .block (b.mapBehaviour f)
  | .nestedBlock b => .nestedBlock (b.mapBehaviour f)
  | .attr a => .attr (a.mapBehaviour f)
  | .nestedObject attributes => .nestedObject (mapAttributes f attributes)

def View.mapBehaviour : View β → View γ
  | .object attributes blocks => .object (mapAttributes f attributes) (mapBlocks f blocks)
  | .list e => .list (e.mapBehaviour f)
  | .set e => .set (e.mapBehaviour f)
  | .map e => .map (e.mapBehaviour f)
  | .atomic type => .atomic type

theorem mapAttributes_eq_map (attributes : List (String × Attribute β)) :
    mapAttributes f attributes = attributes.map fun e => (e.1, e.2.mapBehaviour f) := by
  induction attributes with
  | nil => rfl
  | cons e rest ih => rw [mapAttributes, ih]; rfl

theorem mapBlocks_eq_map (blocks : List (String × NestedBlock β)) :
    mapBlocks f blocks = blocks.map fun e => (e.1, e.2.mapBehaviour f) := by
  induction blocks with
  | nil => rfl
  | cons e rest ih =>
    obtain ⟨name, ⟨block, mode, minItems, maxItems⟩⟩ := e
    rw [mapBlocks, ih]
    rfl

theorem collected_mapBehaviour (mode : NestingMode) (attributes : List (String × Attribute β))
    (blocks : List (String × NestedBlock β)) (element : Node β) :
    Node.collected mode (mapAttributes f attributes) (mapBlocks f blocks) (element.mapBehaviour f) =
      (Node.collected mode attributes blocks element).mapBehaviour f := by
  cases mode <;> rfl

theorem Node.view_mapBehaviour (n : Node β) : (n.mapBehaviour f).view = n.view.mapBehaviour f := by
  cases n with
  | block b =>
    cases b
    rfl
  | nestedBlock b =>
    obtain ⟨⟨attributes, blocks, description⟩, mode, minItems, maxItems⟩ := b
    exact collected_mapBehaviour f mode attributes blocks (.block ⟨attributes, blocks, description⟩)
  | attr a =>
    obtain ⟨type, flags, description, nested, default, behaviour⟩ := a
    cases nested with
    | none => rfl
    | some nested =>
      obtain ⟨mode, attributes⟩ := nested
      exact collected_mapBehaviour f mode attributes [] (.nestedObject attributes)
  | nestedObject attributes => rfl

/-! ## Steps -/

theorem Keyed.get?_map {α δ : Type} (g : α → δ) (es : Keyed α) (k : String) :
    get? (es.map fun e => (e.1, g e.2)) k = (get? es k).map g := by
  induction es with
  | nil => rfl
  | cons e rest ih =>
    obtain ⟨l, a⟩ := e
    rw [List.map_cons, get?_cons, get?_cons, ih]
    by_cases hl : l = k
    · rw [if_pos hl, if_pos hl]
      rfl
    · rw [if_neg hl, if_neg hl]

theorem member?_mapBehaviour (attributes : List (String × Attribute β))
    (blocks : List (String × NestedBlock β)) (name : String) :
    Node.member? (mapAttributes f attributes) (mapBlocks f blocks) name =
      (Node.member? attributes blocks name).map (Node.mapBehaviour f) := by
  unfold Node.member?
  rw [mapAttributes_eq_map, mapBlocks_eq_map, Keyed.get?_map, Keyed.get?_map]
  cases Keyed.get? attributes name with
  | some a => rfl
  | none => cases Keyed.get? blocks name <;> rfl

theorem Node.Leads.mapBehaviour {n m : Node β} {s : Step} (h : n.Leads s m) :
    (n.mapBehaviour f).Leads s (m.mapBehaviour f) := by
  have hview := n.view_mapBehaviour f
  cases h with
  | member hv hm =>
    rw [hv] at hview
    exact .member hview (by rw [member?_mapBehaviour, hm]; rfl)
  | item i hv => rw [hv] at hview; exact .item i hview
  | element v hv => rw [hv] at hview; exact .element v hview
  | entry k hv => rw [hv] at hview; exact .entry k hview

theorem Node.Reaches.mapBehaviour {n m : Node β} {steps : List Step} (h : n.Reaches steps m) :
    (n.mapBehaviour f).Reaches steps (m.mapBehaviour f) := by
  induction steps generalizing n with
  | nil => exact congrArg (Node.mapBehaviour f) h
  | cons s steps ih =>
    obtain ⟨next, hnext, hm⟩ := h
    exact ⟨next.mapBehaviour f, hnext.mapBehaviour f, ih hm⟩

/-! ## Properties -/

section

variable {p : Node γ → Bool}

theorem attributesEvery_mapAttributes {attributes : List (String × Attribute β)}
    (h : ∀ e ∈ attributes,
      (e.2.mapBehaviour f).every p = e.2.every fun n => p (n.mapBehaviour f)) :
    attributesEvery p (mapAttributes f attributes) =
      attributesEvery (fun n => p (n.mapBehaviour f)) attributes := by
  induction attributes with
  | nil => rfl
  | cons e rest ih =>
    rw [mapAttributes, attributesEvery, attributesEvery, h e List.mem_cons_self,
      ih (fun e he => h e (List.mem_cons_of_mem _ he))]

theorem Attribute.every_mapBehaviour (a : Attribute β) :
    (a.mapBehaviour f).every p = a.every fun n => p (n.mapBehaviour f) := by
  induction a using Attribute.nestedInduction with
  | step a ih =>
    obtain ⟨type, flags, description, nested, default, behaviour⟩ := a
    rw [mapBehaviour, every, every]
    cases nested with
    | none => rfl
    | some nested =>
      obtain ⟨mode, attributes⟩ := nested
      rw [mapNested, nestedEvery, nestedEvery, attributesEvery_mapAttributes f (ih _ rfl)]
      rfl

theorem blocksEvery_mapBlocks {blocks : List (String × NestedBlock β)}
    (h : ∀ e ∈ blocks,
      (e.2.block.mapBehaviour f).every p = e.2.block.every fun n => p (n.mapBehaviour f)) :
    blocksEvery p (mapBlocks f blocks) = blocksEvery (fun n => p (n.mapBehaviour f)) blocks := by
  induction blocks with
  | nil => rfl
  | cons e rest ih =>
    obtain ⟨name, ⟨block, mode, minItems, maxItems⟩⟩ := e
    rw [mapBlocks, blocksEvery, blocksEvery, h _ List.mem_cons_self,
      ih (fun e he => h e (List.mem_cons_of_mem _ he))]
    rfl

theorem Block.every_mapBehaviour (b : Block β) :
    (b.mapBehaviour f).every p = b.every fun n => p (n.mapBehaviour f) := by
  induction b using Block.nestedInduction with
  | step b ih =>
    obtain ⟨attributes, blocks, description⟩ := b
    rw [mapBehaviour, every, every, blocksEvery_mapBlocks f ih,
      attributesEvery_mapAttributes f (fun e _ => e.2.every_mapBehaviour f)]
    rfl

theorem Schema.every_mapBehaviour (s : Schema β) :
    (s.mapBehaviour f).every p = s.every fun n => p (n.mapBehaviour f) :=
  s.root.every_mapBehaviour f

theorem Schema.every_ifAttribute_mapBehaviour {p : Attribute γ → Bool} {q : Attribute β → Bool}
    (h : ∀ a, p (a.mapBehaviour f) = q a) (s : Schema β) :
    (s.mapBehaviour f).every (Node.ifAttribute p) = s.every (Node.ifAttribute q) := by
  rw [s.every_mapBehaviour]
  congr 1
  funext n
  cases n with
  | attr a => exact h a
  | _ => rfl

end

end ProviderKit
