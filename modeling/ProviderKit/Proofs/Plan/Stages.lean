import ProviderKit.Proofs.Schema.Filled
import ProviderKit.Proofs.Schema.Leads
import ProviderKit.Plan.Defaults
import ProviderKit.Plan.Unknowns

-- The two stages that a plan goes through before the provider has its say, as walks: the
-- defaults are written, then what the provider decides is made unknown. Neither touches
-- what is configured, or what no schema describes.

namespace ProviderKit

variable {β : Type}

/-! ## What is configured -/

theorem Value.configures_iff (config : Value) (path : Path) :
    config.configures path = true ↔ ∃ v, config.reach? path.steps = some v ∧ v.isNull = false := by
  unfold configures
  cases h : config.atPath path with
  | ok v =>
    rw [(atPath_eq_ok_iff config v path).mp h]
    simp
  | error fault =>
    cases hr : config.reach? path.steps with
    | none => simp
    | some w => rw [(atPath_eq_ok_iff config w path).mpr hr] at h; cases h

theorem Value.configures_eq_false_iff {config : Value} {path : Path} :
    config.configures path = false ↔ config.atPathOrNull path = .null := by
  unfold configures atPathOrNull
  cases config.atPath path with
  | ok v => cases v <;> simp [isNull]
  | error fault => simp

theorem Value.atPathOrNull_eq (v : Value) (path : Path) :
    v.atPathOrNull path = (v.reach? path.steps).getD .null := by
  unfold atPathOrNull
  cases h : v.atPath path with
  | ok w => rw [(atPath_eq_ok_iff v w path).mp h, Option.getD_some]
  | error fault =>
    cases hr : v.reach? path.steps with
    | none => rfl
    | some w =>
      rw [(atPath_eq_ok_iff v w path).mpr hr] at h
      cases h

theorem Value.configures_of_reach?_eq_none {config : Value} {path : Path}
    (h : config.reach? path.steps = none) : config.configures path = false := by
  cases hc : config.configures path with
  | false => rfl
  | true =>
    obtain ⟨v, hv, _⟩ := (configures_iff config path).mp hc
    rw [h] at hv
    cases hv

/-! ## Defaults -/

/-- The visitor that writes defaults. -/
def defaulting (config : Value) : Visit β (Except Fault) :=
  fun path node v => .ok (defaultAt config path node v)

/-- How many levels defaults can add from a node on. -/
def Node.defaultLevels : Node β → Nat
  | .block b => b.defaultLevels
  | .nestedBlock b => b.block.defaultLevels
  | .attr a => a.defaultLevels
  | .nestedObject attributes => attributesDefaultLevels attributes

/-- How many levels defaults can add from the positions below a node on. -/
def Node.innerDefaultLevels : Node β → Nat
  | .block b => b.defaultLevels
  | .nestedBlock b => b.block.defaultLevels
  | .attr a => nestedDefaultLevels a.nested
  | .nestedObject attributes => attributesDefaultLevels attributes

def Position.defaultLevels : Position β → Nat
  | .described n => n.defaultLevels
  | _ => 0

def Position.innerDefaultLevels : Position β → Nat
  | .described n => n.innerDefaultLevels
  | _ => 0

theorem defaultAt_of_configures {config : Value} {path : Path} {node : Except Fault (Node β)}
    {v : Value} (h : config.configures path = true) : defaultAt config path node v = v := by
  unfold defaultAt
  split
  · split
    · rw [if_pos h]
    · rfl
  · rfl

theorem Attribute.defaultLevels_eq (a : Attribute β) :
    a.defaultLevels = (a.default.map Value.depth).getD 0 + nestedDefaultLevels a.nested := by
  cases a
  rw [defaultLevels]

theorem attribute_defaultLevels_le {attributes : List (String × Attribute β)} {name : String}
    {a : Attribute β} (h : Keyed.get? attributes name = some a) :
    a.defaultLevels ≤ attributesDefaultLevels attributes := by
  induction attributes with
  | nil => simp at h
  | cons e rest ih =>
    obtain ⟨k, b⟩ := e
    rw [Keyed.get?_cons] at h
    rw [attributesDefaultLevels]
    by_cases hk : k = name
    · rw [if_pos hk] at h
      cases h
      omega
    · rw [if_neg hk] at h
      have := ih h
      omega

theorem block_defaultLevels_le {blocks : List (String × NestedBlock β)} {name : String}
    {b : NestedBlock β} (h : Keyed.get? blocks name = some b) :
    b.block.defaultLevels ≤ blocksDefaultLevels blocks := by
  induction blocks with
  | nil => simp at h
  | cons e rest ih =>
    obtain ⟨k, ⟨c, _, _, _⟩⟩ := e
    rw [Keyed.get?_cons] at h
    rw [blocksDefaultLevels]
    by_cases hk : k = name
    · rw [if_pos hk] at h
      cases h
      simp only
      omega
    · rw [if_neg hk] at h
      have := ih h
      omega

theorem Block.defaultLevels_eq (b : Block β) :
    b.defaultLevels =
      max (attributesDefaultLevels b.attributes) (blocksDefaultLevels b.blocks) := by
  cases b
  rw [defaultLevels]

/-- What stands below a node in the schema. -/
def View.defaultLevels : View β → Nat
  | .object attributes blocks =>
    max (attributesDefaultLevels attributes) (blocksDefaultLevels blocks)
  | .list e | .set e | .map e => e.defaultLevels
  | .atomic _ => 0

theorem Node.view_defaultLevels_le (n : Node β) : n.view.defaultLevels ≤ n.innerDefaultLevels := by
  cases n with
  | block b =>
    refine Nat.le_of_eq ?_
    simp only [view, View.defaultLevels, innerDefaultLevels, Block.defaultLevels_eq]
  | nestedBlock b =>
    rw [view, innerDefaultLevels]
    cases b.mode <;>
      simp [collected, View.defaultLevels, defaultLevels, Block.defaultLevels_eq]
  | attr a =>
    rw [view, innerDefaultLevels]
    cases a.nested with
    | none => exact Nat.zero_le _
    | some nested =>
      obtain ⟨mode, attributes⟩ := nested
      cases mode <;>
        simp [collected, View.defaultLevels, defaultLevels, nestedDefaultLevels,
          blocksDefaultLevels]
  | nestedObject attributes =>
    simp [view, View.defaultLevels, innerDefaultLevels, blocksDefaultLevels]

theorem member?_defaultLevels_le {attributes : List (String × Attribute β)}
    {blocks : List (String × NestedBlock β)} {name : String} {n : Node β}
    (h : Node.member? attributes blocks name = some n) :
    n.defaultLevels ≤ max (attributesDefaultLevels attributes) (blocksDefaultLevels blocks) := by
  unfold Node.member? at h
  cases ha : Keyed.get? attributes name with
  | some a =>
    rw [ha] at h
    cases h
    have := attribute_defaultLevels_le ha
    rw [Node.defaultLevels]
    omega
  | none =>
    rw [ha] at h
    obtain ⟨b, hb, rfl⟩ := Option.map_eq_some_iff.mp h
    have := block_defaultLevels_le hb
    rw [Node.defaultLevels]
    omega

theorem Node.Leads.defaultLevels_le {n m : Node β} {s : Step} (h : n.Leads s m) :
    m.defaultLevels ≤ n.innerDefaultLevels := by
  refine Nat.le_trans ?_ n.view_defaultLevels_le
  cases h with
  | member hv hm => rw [hv]; exact member?_defaultLevels_le hm
  | item i hv => rw [hv]; exact Nat.le_refl _
  | element v hv => rw [hv]; exact Nat.le_refl _
  | entry k hv => rw [hv]; exact Nat.le_refl _

/-- Defaults add their levels where they are written, and nowhere else. -/
theorem depth_defaultAt_le (config : Value) (path : Path) (position : Position β) (v : Value) :
    (defaultAt config path (position.node path) v).depth + position.innerDefaultLevels ≤
      v.depth + position.defaultLevels := by
  cases position with
  | described n =>
    cases n with
    | attr a =>
      simp only [defaultAt, Position.node, Position.innerDefaultLevels, Position.defaultLevels,
        Node.innerDefaultLevels, Node.defaultLevels, Attribute.defaultLevels_eq]
      cases hd : a.default with
      | none => simp
      | some d =>
        simp only [Option.map_some, Option.getD_some]
        split <;> omega
    | _ => exact Nat.le_refl _
  | _ => exact Nat.le_refl _

theorem grows_defaulting (config : Value) :
    Grows (defaulting (β := β) config) Position.defaultLevels Position.innerDefaultLevels := by
  refine ⟨?_, ?_, ?_⟩
  · intro path position v u hu
    cases hu
    exact depth_defaultAt_le config path position v
  · intro position child k hc
    cases hp : (child k).position with
    | described m =>
      obtain ⟨n, rfl, hn⟩ := Position.leads_of_entryChild hc hp
      exact hn.defaultLevels_le
    | atomic type => exact Nat.zero_le _
    | undeclared => exact Nat.zero_le _
  · intro position child i x hc
    cases hp : (child i x).position with
    | described m =>
      obtain ⟨n, rfl, hn⟩ := Position.leads_of_itemChild hc hp
      exact hn.defaultLevels_le
    | atomic type => exact Nat.zero_le _
    | undeclared => exact Nat.zero_le _

/-- The first stage fills the plan out, then writes the defaults from the top down. -/
theorem applyDefaults_eq_ok_iff {s : Schema β} {config plan w : Value} :
    s.applyDefaults config plan = .ok w ↔ ∃ filled, s.fillAbsent plan = .ok filled ∧
      Rebuilds (defaulting config) .root (.described (.block s.root)) filled w := by
  unfold Schema.applyDefaults
  rw [bind_eq_ok_iff]
  have hwalk := fun filled => transform_eq_ok_iff (s := s) (grows_defaulting config)
    (Nat.le_refl s.root.defaultLevels) (v := filled) (w := w)
  constructor
  · rintro ⟨filled, hf, h⟩
    exact ⟨filled, hf, (hwalk filled).mp h⟩
  · rintro ⟨filled, hf, h⟩
    exact ⟨filled, hf, (hwalk filled).mpr h⟩

/-! ## What the provider decides -/

/-- The attribute at a position, if there is one, is left to the provider. -/
def Position.isLeftToProvider : Position β → Bool
  | .described (.attr a) => a.isLeftToProvider
  | _ => false

/-- Below the root, what is left to the provider becomes unknown unless it is configured;
everything else stays. -/
theorem eq_of_unknownAt {config : Value} {path : Path} {position : Position β} {v u : Value}
    (h : unknownAt config path (position.node path) v = .ok u) :
    u = if !path.isRoot && !config.configures path && position.isLeftToProvider then .unknown
      else v := by
  unfold unknownAt at h
  cases hr : path.isRoot with
  | true => rw [hr, if_pos rfl] at h; cases h; rfl
  | false =>
    rw [hr, if_neg Bool.false_ne_true] at h
    cases hc : config.configures path with
    | true => rw [hc, if_pos rfl] at h; cases h; rfl
    | false =>
      rw [hc, if_neg Bool.false_ne_true] at h
      cases position with
      | described n =>
        cases n with
        | attr a =>
          cases h
          rfl
        | _ => cases h; rfl
      | atomic type => cases h; rfl
      | undeclared => cases h

theorem unknownAt_of_configures {config : Value} {path : Path}
    {node : Except Fault (Node β)} {v : Value} (h : config.configures path = true) :
    unknownAt config path node v = .ok v := by
  unfold unknownAt
  by_cases hr : path.isRoot = true
  · rw [if_pos hr]
  · rw [if_neg hr, if_pos h]

theorem grows_unknownAt (config : Value) :
    Grows (unknownAt (β := β) config) (fun _ => 0) (fun _ => 0) := by
  refine Grows.of_depth_le (fun path position v u hu => ?_)
  rw [eq_of_unknownAt hu]
  split
  · exact Nat.zero_le _
  · exact Nat.le_refl _

/-- The second stage fills the plan out, then makes attributes unknown from the top down. -/
theorem markUnknowns_eq_ok_iff {s : Schema β} {config plan w : Value} :
    s.markUnknowns config plan = .ok w ↔ ∃ filled, s.fillAbsent plan = .ok filled ∧
      Rebuilds (unknownAt config) .root (.described (.block s.root)) filled w := by
  unfold Schema.markUnknowns
  rw [bind_eq_ok_iff]
  have hwalk := fun filled => transform_eq_ok_iff (s := s) (grows_unknownAt config)
    (Nat.le_refl 0) (v := filled) (w := w)
  constructor
  · rintro ⟨filled, hf, h⟩
    exact ⟨filled, hf, (hwalk filled).mp h⟩
  · rintro ⟨filled, hf, h⟩
    exact ⟨filled, hf, (hwalk filled).mpr h⟩

end ProviderKit
