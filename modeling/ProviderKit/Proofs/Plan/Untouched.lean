import ProviderKit.Proofs.Keyed
import ProviderKit.Proofs.Plan.Visits
import ProviderKit.Proofs.Schema.Places

-- What plan modifiers cannot reach. Whatever they answer, a plan comes out as it went in except
-- at the attributes that have modifiers and below them: no other entry comes, goes or changes.

namespace ProviderKit

variable {σ : Type}

/-! ## Values that are alike except at some places -/

namespace Value

/-- Two values are alike but for what stands below them: neither holds anything and they are equal,
or both are lists of one length, or both are maps, and ascending keys still ascend. -/
inductive AlikeHere : Value → Value → Prop
  | atom {v : Value} : v.isAtom = true → AlikeHere v v
  | list {xs ys : List Value} : xs.length = ys.length → AlikeHere (.list xs) (.list ys)
  | map {es fs : Keyed Value} : (Keyed.Ascending es → Keyed.Ascending fs) →
      AlikeHere (.map es) (.map fs)

theorem AlikeHere.refl (v : Value) : v.AlikeHere v := by
  cases v with
  | list xs => exact .list rfl
  | map es => exact .map id
  | _ => exact .atom rfl

theorem AlikeHere.trans {u v w : Value} (huv : u.AlikeHere v) (hvw : v.AlikeHere w) :
    u.AlikeHere w := by
  cases huv with
  | atom hu => exact hvw
  | list hl =>
    cases hvw with
    | atom hv => cases hv
    | list hl' => exact .list (hl.trans hl')
  | map ha =>
    cases hvw with
    | atom hv => cases hv
    | map ha' => exact .map fun h => ha' (ha h)

/-- Wherever neither the place nor one above it is owned, the same stands in both values: nothing,
or what is alike. -/
def AlikeExcept (owned : List Branch → Prop) (v w : Value) : Prop :=
  ∀ place, (∀ above, above <+: place → ¬ owned above) →
    Option.Rel AlikeHere (v.at? place) (w.at? place)

namespace AlikeExcept

variable {owned : List Branch → Prop} {u v w : Value}

theorem refl (owned : List Branch → Prop) (v : Value) : v.AlikeExcept owned v := by
  intro place _
  cases v.at? place with
  | none => exact .none
  | some x => exact .some (.refl x)

theorem trans (huv : u.AlikeExcept owned v) (hvw : v.AlikeExcept owned w) :
    u.AlikeExcept owned w := by
  intro place hfree
  have huv := huv place hfree
  have hvw := hvw place hfree
  cases hu : u.at? place with
  | none =>
    rw [hu] at huv
    cases hv : v.at? place with
    | none => rwa [hv] at hvw
    | some y => rw [hv] at huv; cases huv
  | some x =>
    rw [hu] at huv
    obtain ⟨y, hy, hxy⟩ := exists_of_rel_some_left huv
    rw [hy] at hvw
    obtain ⟨z, hz, hyz⟩ := exists_of_rel_some_left hvw
    rw [hz]
    exact .some (hxy.trans hyz)

theorem mono {owned' : List Branch → Prop} (h : v.AlikeExcept owned w)
    (hle : ∀ place, owned place → owned' place) : v.AlikeExcept owned' w := by
  intro place hfree
  exact h place fun above habove howned => hfree above habove (hle above howned)

/-- Values all of which are owned may differ in any way. -/
theorem of_owned (h : owned []) (v w : Value) : v.AlikeExcept owned w := by
  intro place hfree
  exact absurd h (hfree [] List.nil_prefix)

/-- What is not owned is alike as it stands there. -/
theorem here (h : v.AlikeExcept owned w) (hfree : ¬ owned []) : v.AlikeHere w := by
  have hrel := h [] fun above habove => by rwa [List.prefix_nil.mp habove]
  cases hrel with
  | some hvw => exact hvw

/-- Values are alike if they are so as they stand and in all parts that are not owned. -/
theorem of_parts (hhere : v.AlikeHere w)
    (hparts : ∀ b, ¬ owned [b] →
      Option.Rel (AlikeExcept fun place => owned (b :: place)) (v.part? b) (w.part? b)) :
    v.AlikeExcept owned w := by
  intro place hfree
  cases place with
  | nil => exact .some hhere
  | cons b place =>
    have hb : ¬ owned [b] := hfree [b] ⟨place, rfl⟩
    have hpart := hparts b hb
    rw [at?, at?]
    cases hv : v.part? b with
    | none =>
      rw [hv] at hpart
      cases hw : w.part? b with
      | none => exact .none
      | some y => rw [hw] at hpart; cases hpart
    | some x =>
      rw [hv] at hpart
      obtain ⟨y, hy, hxy⟩ := exists_of_rel_some_left hpart
      rw [hy]
      refine hxy place fun above habove => hfree (b :: above) ?_
      exact List.cons_prefix_cons.mpr ⟨rfl, habove⟩

/-- What is alike in all parts is equal, where values have their keys in order. -/
theorem eq (h : v.AlikeExcept (fun _ => False) w) (hv : v.Ordered) : v = w := by
  induction v using partsInduction generalizing w with
  | parts v ih =>
    have hparts : ∀ b, v.part? b = w.part? b := by
      intro b
      have hat := h [b] fun _ _ => id
      rw [at?, at?] at hat
      cases hx : v.part? b with
      | none =>
        rw [hx] at hat
        cases hy : w.part? b with
        | none => rfl
        | some y => rw [hy] at hat; cases hat
      | some x =>
        rw [hx] at hat
        obtain ⟨_, hat, _⟩ := exists_of_rel_some_left hat
        obtain ⟨y, hy, _⟩ := Option.bind_eq_some_iff.mp hat
        have hxy : x.AlikeExcept (fun _ => False) y := fun place _ => by
          have hplace := h (b :: place) fun _ _ => id
          rwa [at?, at?, hx, hy] at hplace
        rw [hy, ih b x hx hxy (hv.part hx)]
    cases h.here id with
    | atom _ => rfl
    | @list xs ys _ =>
      have hitems : xs = ys := List.ext_getElem? fun i => hparts (.item i)
      rw [hitems]
    | @map es fs hfs =>
      have hes := hv.ascending
      have hentries : es = fs := Keyed.eq_of_get?_eq hes (hfs hes) fun k => hparts (.entry k)
      rw [hentries]

/-- Where nothing is owned at a place, above or below it, the values are equal there. -/
theorem at?_eq (h : v.AlikeExcept owned w) (hv : v.Ordered) {place : List Branch}
    (habove : ∀ above, above <+: place → ¬ owned above)
    (hbelow : ∀ rest, ¬ owned (place ++ rest)) : v.at? place = w.at? place := by
  have hplace := h place habove
  cases hx : v.at? place with
  | none =>
    rw [hx] at hplace
    cases hy : w.at? place with
    | none => rfl
    | some y => rw [hy] at hplace; cases hplace
  | some x =>
    rw [hx] at hplace
    obtain ⟨y, hy, _⟩ := exists_of_rel_some_left hplace
    have hxy : x.AlikeExcept (fun _ => False) y := by
      intro rest _
      have hrest := h (place ++ rest) fun above hle => by
        have hcases := List.prefix_or_prefix_of_prefix hle (List.prefix_append place rest)
        rcases hcases with hle | ⟨more, rfl⟩
        · exact habove above hle
        · exact hbelow more
      rwa [at?_append, at?_append, hx, hy] at hrest
    rw [hy, hxy.eq (hv.at? hx)]

end AlikeExcept

end Value

theorem rel_getElem? {R : Value → Value → Prop} {xs ys : List Value} (h : List.Forall₂ R xs ys)
    (i : Nat) : Option.Rel R xs[i]? ys[i]? := by
  induction h generalizing i with
  | nil => exact .none
  | cons hxy _ ih =>
    cases i with
    | zero => exact .some hxy
    | succ i => exact ih i

/-! ## The places of modifiers -/

/-- At this place below a node, an attribute is declared that has plan modifiers. What stands at
the place makes no difference. -/
inductive Node.HasModifiersAt : Node (Behaviour σ) → List Branch → Prop
  | here {a : Attribute (Behaviour σ)} : a.behaviour.planModifiers ≠ [] →
      HasModifiersAt (.attr a) []
  | inside {n m : Node (Behaviour σ)} {b : Branch} {s : Step} {x : Value} {place : List Branch} :
      n.Declares s m → x.Names b s → HasModifiersAt m place → HasModifiersAt n (b :: place)

/-- Below the node, the two values differ at most where there are modifiers, and below. -/
abbrev Node.LeavesAlike (n : Node (Behaviour σ)) : Value → Value → Prop :=
  Value.AlikeExcept n.HasModifiersAt

namespace Node.LeavesAlike

variable {n m : Node (Behaviour σ)} {v w : Value}

/-- What is left alike below a node is so below the node that declares it. -/
theorem below {b : Branch} {s : Step} {x : Value} (h : m.LeavesAlike v w) (hm : n.Declares s m)
    (hs : x.Names b s) : v.AlikeExcept (fun place => n.HasModifiersAt (b :: place)) w :=
  h.mono fun _ hplace => .inside hm hs hplace

theorem list {xs ys : List Value} (hv : n.view = .list m ∨ n.view = .set m)
    (h : List.Forall₂ m.LeavesAlike xs ys) : n.LeavesAlike (.list xs) (.list ys) := by
  refine .of_parts (.list h.length_eq) fun b _ => ?_
  cases b with
  | entry k => exact .none
  | item i =>
    refine rel_imp (fun x y hxy => ?_) (rel_getElem? h i)
    rcases hv with hv | hv
    · exact below hxy (.item i hv) (Value.Names.index (x := x) i)
    · exact below hxy (.element x hv) (.element i)

theorem map {es fs : Keyed Value} (hv : n.view = .map m)
    (h : List.Forall₂ (fun e f => e.1 = f.1 ∧ m.LeavesAlike e.2 f.2) es fs) :
    n.LeavesAlike (.map es) (.map fs) := by
  have hascending : Keyed.Ascending es → Keyed.Ascending fs := by
    intro hes
    have hkeys := List.pairwise_map.mpr hes
    have hsame := Keyed.keys_eq_of_forall₂ h
    unfold Keyed.keys at hsame
    rw [hsame] at hkeys
    exact List.pairwise_map.mp hkeys
  refine .of_parts (.map hascending) fun b _ => ?_
  cases b with
  | item i => exact .none
  | entry k =>
    refine rel_imp (fun x y hxy => ?_) (Keyed.rel_get? h k)
    exact below hxy (.entry k hv) (Value.Names.key (x := x) k)

/-- An object is left alike when the one entry that is set is so, or is the place of modifiers. -/
theorem insert {es : Keyed Value} {name : String} {y : Value}
    (h : ¬ n.HasModifiersAt [.entry name] →
      Option.Rel (Value.AlikeExcept fun place => n.HasModifiersAt (.entry name :: place))
        (Keyed.get? es name) (some y)) :
    n.LeavesAlike (.map es) (.map (Keyed.insert es name y)) := by
  refine .of_parts (.map fun hes => hes.insert name y) fun b hfree => ?_
  cases b with
  | item i => exact .none
  | entry k =>
    rw [Value.part?, Value.part?]
    by_cases hk : k = name
    · subst hk
      rw [Keyed.get?_insert_self]
      exact h hfree
    · rw [Keyed.get?_insert_of_ne es y hk]
      cases Keyed.get? es k with
      | none => exact .none
      | some z => exact .some (.refl _ z)

/-- An object is left alike when one of its attributes is: an absent one stays so, unless it has
modifiers. -/
theorem putBack {attributes : List (String × Attribute (Behaviour σ))}
    {blocks : List (String × NestedBlock (Behaviour σ))} {es : Keyed Value} {name : String}
    {a : Attribute (Behaviour σ)} {y : Value} (hv : n.view = .object attributes blocks)
    (ha : (name, a) ∈ attributes)
    (h : (Node.attr a).LeavesAlike ((Keyed.get? es name).getD .null) y) :
    n.LeavesAlike (.map es) (.map (Modify.putBack es name (Keyed.get? es name) y)) := by
  have hname : Value.Names y (.entry name) (.field name) := .field name
  have hdeclares : n.Declares (.field name) (.attr a) := .attr hv ha
  cases hx : Keyed.get? es name with
  | some x =>
    rw [hx] at h
    refine insert fun _ => ?_
    rw [hx]
    exact .some (below h hdeclares hname)
  | none =>
    unfold Modify.putBack
    split
    · exact .refl _ _
    · next hsomething =>
      -- Without modifiers, what was absent would have stayed null.
      refine insert fun hfree => ?_
      rw [hx] at h
      have hunmodified : ¬ (Node.attr a).HasModifiersAt [] := fun hplace =>
        hfree (.inside hdeclares hname hplace)
      cases h.here hunmodified with
      | atom _ => exact absurd rfl hsomething

end Node.LeavesAlike

/-! ## Runs -/

namespace Modify

variable {r : ModifyRequest} {n m : Node (Behaviour σ)} {visit : VisitObject σ}
  {attributes : List (String × Attribute (Behaviour σ))}
  {blocks : List (String × NestedBlock (Behaviour σ))}

/-- Visiting a planned value leaves it alike, whatever stands beside it. -/
def LeavesAlike (visit : VisitObject σ) (n : Node (Behaviour σ)) : Prop :=
  ∀ path config state plan, Gives _ (visit path config state plan) (n.LeavesAlike plan)

theorem leavesAlike_visitCollection {mode : NestingMode}
    (hv : n.view = Node.collected mode attributes blocks m)
    (hsingle : n.view = .object attributes blocks → LeavesAlike visit n)
    (hbelow : LeavesAlike visit m) : LeavesAlike (visitCollection mode visit) n := by
  intro path config state plan
  have hL : Sequential (Gives (σ := σ)) := sequential_gives
  cases mode with
  | single => exact hsingle hv path config state plan
  | list =>
    cases plan
    case list xs =>
      refine hL.bind (hL.visitItems fun j x _ => hbelow _ _ _ x) fun ys hys => hL.pure ?_
      exact .list (.inl hv) hys
    all_goals exact hL.pure (.refl _ _)
  | set =>
    cases plan
    case list xs =>
      refine hL.bind (hL.visitElements fun x _ => hbelow _ _ _ x) fun ys hys => hL.pure ?_
      exact .list (.inr hv) hys
    all_goals exact hL.pure (.refl _ _)
  | map =>
    cases plan
    case map es =>
      refine hL.bind (hL.visitEntries fun e _ => hbelow _ _ _ e.2) fun fs hfs => hL.pure ?_
      exact .map hv hfs
    all_goals exact hL.pure (.refl _ _)

theorem leavesAlike_onObject {onEntries : Keyed Value → ModifyM σ (Keyed Value)}
    (h : ∀ es, Gives _ (onEntries es) fun fs => n.LeavesAlike (.map es) (.map fs)) (plan : Value) :
    Gives _ (onObject onEntries plan) (n.LeavesAlike plan) := by
  have hL : Sequential (Gives (σ := σ)) := sequential_gives
  cases plan
  case map es => exact hL.bind (h es) fun fs hfs => hL.pure hfs
  all_goals exact hL.pure (.refl _ _)

/-- One attribute of an object after the other is left alike. -/
theorem leavesAlike_visitAttributes (hv : n.view = .object attributes blocks)
    {visited : List (String × Attribute (Behaviour σ))} (hvisited : ∀ e ∈ visited, e ∈ attributes)
    (h : ∀ e ∈ visited, LeavesAlike (visitAttribute r e.2) (.attr e.2)) (path : Path)
    (config state : Value) (es : Keyed Value) :
    Gives _ (visitAttributes r visited path config state es) fun fs =>
      n.LeavesAlike (.map es) (.map fs) := by
  have hL : Sequential (Gives (σ := σ)) := sequential_gives
  induction visited generalizing es with
  | nil =>
    rw [visitAttributes]
    exact hL.pure (.refl _ _)
  | cons e rest ih =>
    obtain ⟨name, a⟩ := e
    rw [visitAttributes]
    refine hL.bind (h (name, a) List.mem_cons_self _ _ _ _) fun y hy => ?_
    have hfirst := Node.LeavesAlike.putBack hv (hvisited _ List.mem_cons_self) hy
    intro log world
    have hrest := ih (fun f hf => hvisited f (List.mem_cons_of_mem _ hf))
      (fun f hf => h f (List.mem_cons_of_mem _ hf)) (putBack es name (Keyed.get? es name) y)
    exact hfirst.trans (hrest log world)

/-- One nested block after the other is left alike. -/
theorem leavesAlike_visitBlocks (hv : n.view = .object attributes blocks)
    {visited : List (String × NestedBlock (Behaviour σ))} (hvisited : ∀ e ∈ visited, e ∈ blocks)
    (h : ∀ e ∈ visited,
      LeavesAlike (visitCollection e.2.mode (visitBlock r e.2.block)) (.nestedBlock e.2))
    (path : Path) (config state : Value) (es : Keyed Value) :
    Gives _ (visitBlocks r visited path config state es) fun fs =>
      n.LeavesAlike (.map es) (.map fs) := by
  have hL : Sequential (Gives (σ := σ)) := sequential_gives
  induction visited generalizing es with
  | nil =>
    rw [visitBlocks]
    exact hL.pure (.refl _ _)
  | cons e rest ih =>
    obtain ⟨name, ⟨b, mode, minItems, maxItems⟩⟩ := e
    have hrest := ih (fun f hf => hvisited f (List.mem_cons_of_mem _ hf))
      (fun f hf => h f (List.mem_cons_of_mem _ hf))
    have hdeclares : n.Declares (.field name) (.nestedBlock ⟨b, mode, minItems, maxItems⟩) :=
      .block hv (hvisited _ List.mem_cons_self)
    rw [visitBlocks]
    cases hbefore : Keyed.get? es name with
    | none => exact hrest es
    | some before =>
      refine hL.bind (h _ List.mem_cons_self _ _ _ before) fun after hafter => ?_
      have hfirst : n.LeavesAlike (.map es) (.map (Keyed.insert es name after)) := by
        refine .insert fun _ => ?_
        rw [hbefore]
        exact .some (Node.LeavesAlike.below hafter hdeclares (.field (x := after) name))
      intro log world
      exact hfirst.trans (hrest _ log world)

theorem leavesAlike_visitAttribute (r : ModifyRequest) (a : Attribute (Behaviour σ)) :
    LeavesAlike (visitAttribute r a) (.attr a) := by
  have hL : Sequential (Gives (σ := σ)) := sequential_gives
  induction a using Attribute.nestedInduction with
  | step a ih =>
    intro path config state plan
    by_cases hmodified : a.behaviour.planModifiers = []
    · rw [visitAttribute_eq, hmodified, runModifiers]
      refine hL.bind (P := (· = (plan, false))) (hL.pure rfl) fun done hdone => ?_
      subst hdone
      cases hn : a.nested with
      | none => exact hL.pure (.refl _ _)
      | some nested =>
        obtain ⟨mode, attributes⟩ := nested
        have hview : (Node.attr a).view =
            Node.collected mode attributes [] (.nestedObject attributes) := by rw [Node.view, hn]
        have hobject : ∀ {n : Node (Behaviour σ)}, n.view = .object attributes [] →
            LeavesAlike (fun path config state =>
              onObject (visitAttributes r attributes path config state)) n := fun hv _ _ _ =>
          leavesAlike_onObject (leavesAlike_visitAttributes hv (fun _ he => he) (ih _ hn) _ _ _)
        exact leavesAlike_visitCollection hview hobject (hobject rfl) path config state plan
    · intro log world
      exact .of_owned (.here hmodified) _ _

theorem leavesAlike_visitBlock (r : ModifyRequest) (b : Block (Behaviour σ))
    (hv : n.view = .object b.attributes b.blocks) : LeavesAlike (visitBlock r b) n := by
  have hL : Sequential (Gives (σ := σ)) := sequential_gives
  induction b using Block.nestedInduction generalizing n with
  | step b ih =>
    intro path config state plan
    rw [visitBlock_eq]
    refine leavesAlike_onObject (fun es => ?_) plan
    have hattributes := leavesAlike_visitAttributes (r := r) hv (fun _ he => he)
      (fun e _ => leavesAlike_visitAttribute r e.2) path config state es
    refine hL.bind hattributes fun fs hfs => ?_
    have hblocks := leavesAlike_visitBlocks (r := r) hv (fun _ he => he) (fun e he =>
      leavesAlike_visitCollection (n := .nestedBlock e.2) rfl (ih e he) (ih e he rfl)) path config
        state fs
    intro log world
    exact hfs.trans (hblocks log world)

end Modify

/-! ## Whole plans -/

/-- Whatever the plan modifiers of a schema answer, the plan that comes out differs from the one
that went in at most at the places of attributes that have modifiers, and below these places. -/
theorem modifyPlan_leavesAlike (s : ActiveSchema σ) (r : ModifyRequest) (world : σ) :
    r.plan.raw.AlikeExcept (Node.block s.root).HasModifiersAt
      (s.modifyPlan r world).1.plan.raw :=
  Modify.leavesAlike_visitBlock r s.root rfl .root r.config.raw r.state.raw r.plan.raw [] world

/-- Where no attribute has modifiers at a place, above it or below it, the plan stays as it is. -/
theorem modifyPlan_at?_eq (s : ActiveSchema σ) {r : ModifyRequest} (hplan : r.plan.raw.Ordered)
    (world : σ) {place : List Branch}
    (habove : ∀ above, above <+: place → ¬ (Node.block s.root).HasModifiersAt above)
    (hbelow : ∀ rest, ¬ (Node.block s.root).HasModifiersAt (place ++ rest)) :
    (s.modifyPlan r world).1.plan.raw.at? place = r.plan.raw.at? place := by
  have halike := Modify.leavesAlike_visitBlock (n := .block s.root) r s.root rfl .root r.config.raw
    r.state.raw r.plan.raw [] world
  exact (halike.at?_eq hplan habove hbelow).symm

end ProviderKit
