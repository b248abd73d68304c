import ProviderKit.Proofs.Schema.Every
import ProviderKit.Proofs.Schema.Places
import ProviderKit.Proofs.Schema.Reports

-- Where diagnostics come from. Validation checks a value node by node; each diagnostic is said at
-- one of the nodes that it comes to, at the path of the steps that led there.

namespace ProviderKit

variable {β : Type}

/-! ## What validation comes to -/

/-- Checking a value at a node, validation comes along steps to another node, and to what stands
there, if anything does. -/
def Node.Checks : Node β → Option Value → List Step → Node β → Option Value → Prop
  | n, v, [], m, w => n = m ∧ v = w
  | n, v, s :: steps, m, w => ∃ c ∈ n.contents v, c.step = s ∧ c.node.Checks c.value? steps m w

/-- What is reported is what is said at each node that validation comes to. -/
theorem Node.mem_reportAt_iff {n : Node β} {path : Path} {v : Option Value} {d : Diagnostic} :
    d ∈ n.reportAt path v ↔
      ∃ steps m w, n.Checks v steps m w ∧ d ∈ m.remarks ⟨path.steps ++ steps⟩ w := by
  constructor
  · intro h
    induction n, v using Node.contentsInduction generalizing path with
    | level n v ih =>
      rw [n.reportAt_eq, List.mem_append, List.mem_flatMap] at h
      rcases h with ⟨c, hc, hd⟩ | hd
      · obtain ⟨steps, m, w, hchecks, hd⟩ := ih c hc hd
        rw [Path.push_steps, List.append_assoc] at hd
        exact ⟨c.step :: steps, m, w, ⟨c, hc, rfl, hchecks⟩, hd⟩
      · refine ⟨[], n, v, ⟨rfl, rfl⟩, ?_⟩
        rw [List.append_nil]
        exact hd
  · rintro ⟨steps, m, w, hchecks, hd⟩
    rw [n.reportAt_eq]
    induction steps generalizing n v path with
    | nil =>
      obtain ⟨rfl, rfl⟩ := hchecks
      rw [List.append_nil] at hd
      exact List.mem_append_right _ hd
    | cons s steps ih =>
      obtain ⟨c, hc, rfl, hchecks⟩ := hchecks
      refine List.mem_append_left _ (List.mem_flatMap.mpr ⟨c, hc, ?_⟩)
      rw [Content.report, c.node.reportAt_eq]
      refine ih hchecks ?_
      rw [Path.push_steps, List.append_assoc]
      exact hd

theorem Schema.mem_validate_iff {s : Schema β} {v : Value} {d : Diagnostic} :
    d ∈ s.validate v ↔
      ∃ path m w, (Node.block s.root).Checks (some v) path.steps m w ∧ d ∈ m.remarks path w := by
  have hvalidate : s.validate v = (Node.block s.root).reportAt .root (some v) := rfl
  rw [hvalidate, Node.mem_reportAt_iff]
  constructor
  · rintro ⟨steps, m, w, hchecks, hd⟩
    exact ⟨⟨steps⟩, m, w, hchecks, hd⟩
  · rintro ⟨⟨steps⟩, m, w, hchecks, hd⟩
    exact ⟨steps, m, w, hchecks, hd⟩

/-! ## Blocks -/

/-- A block, or one of its objects; the other nodes are those of attributes. -/
def Node.isBlock : Node β → Bool
  | .block _ | .nestedBlock _ => true
  | .attr _ | .nestedObject _ => false

/-- Steps lead from a node to a node that is declared further down. -/
def Node.DeclaresAlong : Node β → List Step → Node β → Prop
  | n, [], m => n = m
  | n, s :: steps, m => ∃ next, n.Declares s next ∧ next.DeclaresAlong steps m

/-- No two blocks of an object have one name. -/
def Node.hasDistinctBlocks (n : Node β) : Bool :=
  match n.view with
  | .object _ blocks => decide (Keyed.keys blocks).Nodup
  | _ => true

/-- So it is in every object. -/
def Schema.hasDistinctBlocks (s : Schema β) : Bool := s.every Node.hasDistinctBlocks

/-- No blocks are declared in attributes. -/
theorem Node.Declares.isBlock {n m : Node β} {s : Step} (h : n.Declares s m)
    (hm : m.isBlock = true) : n.isBlock = true := by
  cases n with
  | block b | nestedBlock b => rfl
  | nestedObject attributes =>
    cases h with
    | attr hview ha => cases hm
    | block hview hb =>
      cases hview
      cases hb
    | item i hview | element x hview | entry k hview => cases hview
  | attr a =>
    cases hnested : a.nested with
    | none => exact absurd (by rw [view, hnested]) (h.view_ne_atomic a.type)
    | some nested =>
      have hview : (Node.attr a).view =
          collected nested.mode nested.attributes [] (.nestedObject nested.attributes) := by
        rw [view, hnested]
      cases h with
      | attr _ _ => cases hm
      | block hobject hb =>
        rw [hview] at hobject
        cases hmode : nested.mode <;> rw [hmode] at hobject <;> cases hobject
        cases hb
      | item i hitems | element x hitems | entry k hitems =>
        rw [hview] at hitems
        cases hmode : nested.mode <;> rw [hmode] at hitems <;> cases hitems
        cases hm

theorem Node.DeclaresAlong.isBlock {n m : Node β} {steps : List Step}
    (h : n.DeclaresAlong steps m) (hm : m.isBlock = true) : n.isBlock = true := by
  induction steps generalizing n with
  | nil =>
    cases h
    exact hm
  | cons s steps ih =>
    obtain ⟨next, hs, hsteps⟩ := h
    exact hs.isBlock (ih hsteps)

theorem Node.Checks.isBlock {n m : Node β} {v w : Option Value} {steps : List Step}
    (h : n.Checks v steps m w) (hm : m.isBlock = true) : n.isBlock = true := by
  induction steps generalizing n v with
  | nil =>
    obtain ⟨rfl, _⟩ := h
    exact hm
  | cons s steps ih =>
    obtain ⟨c, hc, _, hsteps⟩ := h
    exact (declares_of_mem_contents hc).isBlock (ih hsteps)

/-- Validation goes on to the blocks of a value of the kind asked for. -/
theorem Node.Declares.mem_contents {n m : Node β} {v x : Value} {b : Branch} {s : Step}
    (h : n.Declares s m) (hm : m.isBlock = true) (hx : v.part? b = some x) (hb : x.Names b s) :
    ⟨s, m, some x⟩ ∈ n.contents (some v) := by
  have hr : n.isReadOnly = false := by
    have hn := h.isBlock hm
    cases n <;> first | rfl | cases hn
  refine mem_contents_iff.mpr ⟨Value.isKnown_of_part? hx, hr, ?_⟩
  cases h with
  | attr _ _ => cases hm
  | @block attributes blocks name c hview hc =>
    cases hb
    obtain ⟨es, rfl, hget⟩ := Value.exists_map_of_part? hx
    have hmember : (name, nestedBlock c) ∈ members attributes blocks :=
      List.mem_append_right _ (List.mem_map_of_mem (f := fun e => (e.1, nestedBlock e.2)) hc)
    rw [hview]
    exact ⟨_, rfl, List.mem_map.mpr ⟨_, hmember, by rw [hget]⟩⟩
  | item i hview =>
    cases hb
    cases v
    case list xs =>
      have hmem : (x, i) ∈ xs.zipIdx := List.mem_zipIdx_iff_getElem?.mpr hx
      rw [hview]
      exact ⟨_, rfl, List.mem_map.mpr ⟨_, hmem, rfl⟩⟩
    all_goals cases hx
  | element y hview =>
    cases hb
    obtain ⟨xs, rfl, hmem⟩ := Value.exists_list_of_part? hx
    rw [hview]
    exact ⟨_, rfl, List.mem_map.mpr ⟨_, hmem, rfl⟩⟩
  | entry k hview =>
    cases hb
    obtain ⟨es, rfl, hget⟩ := Value.exists_map_of_part? hx
    rw [hview]
    exact ⟨_, rfl, List.mem_map.mpr ⟨_, Keyed.mem_of_get? hget, rfl⟩⟩

/-- Validation comes to every block that is declared and has a value. -/
theorem Node.DeclaresAlong.checks {n m : Node β} {v x : Value} {place : List Branch}
    {steps : List Step} (h : n.DeclaresAlong steps m) (hm : m.isBlock = true)
    (hspells : v.Spells place steps) (hx : v.at? place = some x) :
    n.Checks (some v) steps m (some x) := by
  induction place generalizing n v steps with
  | nil =>
    cases hspells
    cases h
    cases hx
    exact ⟨rfl, rfl⟩
  | cons b place ih =>
    obtain ⟨y, s, rest, hy, hb, hspells, rfl⟩ := hspells
    obtain ⟨next, hs, hsteps⟩ := h
    rw [Value.at?, hy] at hx
    exact ⟨_, hs.mem_contents (hsteps.isBlock hm) hy hb, rfl, ih hsteps hspells hx⟩

/-! ## One block in one place -/

/-- A step leads to one block at most, where names are distinct. -/
theorem Node.Declares.eq_of_isBlock {n m m' : Node β} {s : Step} (h : n.Declares s m)
    (h' : n.Declares s m') (hn : n.hasDistinctBlocks = true) (hm : m.isBlock = true)
    (hm' : m'.isBlock = true) : m = m' := by
  cases h with
  | attr _ _ => cases hm
  | block hview hb =>
    cases h' with
    | attr _ _ => cases hm'
    | block hview' hb' =>
      cases hview.symm.trans hview'
      rw [hasDistinctBlocks, hview, decide_eq_true_iff] at hn
      have hget := Keyed.get?_of_mem_of_nodup hn hb
      rw [Keyed.get?_of_mem_of_nodup hn hb'] at hget
      cases hget
      rfl
  | item i hview =>
    cases h' with
    | item _ hview' =>
      cases hview.symm.trans hview'
      rfl
  | element x hview =>
    cases h' with
    | element _ hview' =>
      cases hview.symm.trans hview'
      rfl
  | entry k hview =>
    cases h' with
    | entry _ hview' =>
      cases hview.symm.trans hview'
      rfl

/-- What stands in a value under a step; an element is what its step names it by. -/
def Value.under? : Value → Step → Option Value
  | .map es, .field name => Keyed.get? es name
  | .map es, .key k => Keyed.get? es k
  | .list xs, .index i => xs[i]?
  | .list _, .element x => some x
  | _, _ => none

theorem Content.value?_eq {n : Node β} {v : Value} {c : Content β} (hv : v.Ordered)
    (hc : c ∈ n.contents (some v)) : c.value? = v.under? c.step := by
  obtain ⟨_, _, contents, hcontents, hc⟩ := Node.mem_contents_iff.mp hc
  cases hview : n.view <;> rw [hview] at hcontents <;> cases v <;> cases hcontents
  case object.map attributes blocks es =>
    obtain ⟨e, _, rfl⟩ := List.mem_map.mp hc
    rfl
  case list.list m xs =>
    obtain ⟨e, he, rfl⟩ := List.mem_map.mp hc
    exact (List.mem_zipIdx_iff_getElem?.mp he).symm
  case set.list m xs =>
    obtain ⟨x, _, rfl⟩ := List.mem_map.mp hc
    rfl
  case map.map m es =>
    obtain ⟨e, he, rfl⟩ := List.mem_map.mp hc
    exact (Keyed.get?_of_mem hv.ascending he).symm
  all_goals cases hc

/-- Along the same steps, validation comes to one block at most, and to one value. -/
theorem Node.Checks.unique {n m m' : Node β} {v w w' : Option Value} {steps : List Step}
    (h : n.Checks v steps m w) (h' : n.Checks v steps m' w')
    (hn : n.every hasDistinctBlocks = true) (hv : ∀ x, v = some x → x.Ordered)
    (hm : m.isBlock = true) (hm' : m'.isBlock = true) : m = m' ∧ w = w' := by
  induction steps generalizing n v with
  | nil =>
    obtain ⟨rfl, rfl⟩ := h
    exact h'
  | cons s steps ih =>
    obtain ⟨c, hc, rfl, hsteps⟩ := h
    obtain ⟨c', hc', hs, hsteps'⟩ := h'
    have hdeclares := declares_of_mem_contents hc
    -- An attribute may have the name of a block, but validation comes to no block below it.
    have hnode : c'.node = c.node := by
      have hdeclares' := declares_of_mem_contents hc'
      rw [hs] at hdeclares'
      exact hdeclares'.eq_of_isBlock hdeclares (self_of_every hn) (hsteps'.isBlock hm')
        (hsteps.isBlock hm)
    cases v with
    | none => cases hc
    | some v =>
      have hord := hv v rfl
      have hvalue : c'.value? = c.value? := by
        rw [Content.value?_eq hord hc, Content.value?_eq hord hc', hs]
      rw [hnode, hvalue] at hsteps'
      refine ih hsteps hsteps' (hdeclares.every hn) fun x hx => ?_
      exact hord.enclosed (encloses_of_contents hc hx)

end ProviderKit
