import Mathlib.Data.List.Lex
import ProviderKit.Proofs.Schema.Observed
import ProviderKit.Proofs.Schema.Places
import ProviderKit.Schema.Build
import ProviderKit.Schema.Validate

-- Where a value has not the shape that its schema asks for. A walk that changes nothing finds the
-- first such place, in the order in which parents come before what is in them, whichever way
-- it goes and whatever its visitor does beside.

namespace ProviderKit

variable {β : Type}

/-! ## Shapes -/

/-- The kind of the values that have a shape. -/
def Shape.kind : Shape → Value.Kind
  | .object => .map
  | .map => .map
  | .list => .list
  | .set => .list

/-- A value with nothing in it has none of the shapes. -/
theorem Shape.ne_kind_of_atom {v : Value} (hv : v.isAtom = true) (shape : Shape) :
    v.kind ≠ shape.kind := by
  have hshape : shape.kind = .map ∨ shape.kind = .list := by cases shape <;> simp [Shape.kind]
  intro hkind
  rcases hshape with hshape | hshape <;> rw [hshape] at hkind <;> cases v <;> cases hkind <;>
    cases hv

namespace Node

/-- The shape that a known value must have at a node, if any. -/
def shape? : Node β → Option Shape
  | .block _ => some .object
  | .nestedObject _ => some .object
  | .nestedBlock b => some b.mode.shape
  | .attr a => a.nested.map fun nested => nested.mode.shape

/-- What stands at the node, at this path, is known and has not the shape it must have. -/
def Refuses (n : Node β) (path : Path) (v : Value) (fault : Fault) : Prop :=
  ∃ shape, n.shape? = some shape ∧ v.isKnown = true ∧ v.kind ≠ shape.kind ∧
    fault = .shapeMismatch path shape v.kind

end Node

/-! ## The order of places -/

/-- The entries of a map come in the order of their keys, and the items of a list in that of their
indexes. -/
inductive Branch.Before : Branch → Branch → Prop
  | entry {k l : String} : k < l → Before (.entry k) (.entry l)
  | item {i j : Nat} : i < j → Before (.item i) (.item j)

/-- A place comes before those below it, and these come before the places of later branches. -/
def PlaceBefore : List Branch → List Branch → Prop := List.Lex Branch.Before

/-! ## Mismatches -/

/-- What comes of a check that can fail at places, each with its fault: what was checked, where it
fails nowhere, and else the fault of the first place of all where it does. -/
inductive Verdict {α : Type} (fails : List Branch → Fault → Prop) (a : α) : Except Fault α → Prop
  | accepted : (∀ place fault, ¬ fails place fault) → Verdict fails a (.ok a)
  | refused {place : List Branch} {fault : Fault} : fails place fault →
      (∀ other fault', fails other fault' → other = place ∨ PlaceBefore place other) →
      Verdict fails a (.error fault)

/-- At this place, the schema refuses what the value has there, with this fault. -/
def Schema.MismatchAt (s : Schema β) (v : Value) (place : List Branch) (fault : Fault) : Prop :=
  ∃ path x n, v.Spells place path.steps ∧ v.at? place = some x ∧ s.nodeAt path = .ok n ∧
    n.Refuses path x fault

/-! ## Mismatches as a walk meets them -/

namespace Position

variable {path : Path} {position : Position β} {v : Value} {place : List Branch} {fault : Fault}

theorem demand_described (n : Node β) : (described n).demand = n.shape? := by
  cases n with
  | block b => rfl
  | nestedObject attributes => rfl
  | nestedBlock b =>
    simp only [demand, Node.view, Node.shape?, Node.collected]
    cases b.mode <;> rfl
  | attr a =>
    simp only [demand, Node.view, Node.shape?]
    cases a.nested with
    | none => rfl
    | some nested =>
      simp only [Node.collected, Option.map_some]
      cases nested.mode <;> rfl

/-- A walk comes to the place, where the schema refuses what it meets. -/
def MismatchAt : Path → Position β → Value → List Branch → Fault → Prop
  | path, position, v, [], fault =>
    ∃ shape, position.demand = some shape ∧ v.isKnown = true ∧ v.kind ≠ shape.kind ∧
      fault = .shapeMismatch path shape v.kind
  | path, position, v, b :: place, fault =>
    ∃ x c, v.part? b = some x ∧ position.child? x b = some c ∧
      MismatchAt (path.push c.step) c.position x place fault

/-- Only what the schema describes is refused. -/
theorem MismatchAt.described (h : MismatchAt path position v place fault) :
    ∃ n, position = .described n := by
  induction place generalizing path position v with
  | nil =>
    obtain ⟨shape, hshape, _⟩ := h
    cases position with
    | described n => exact ⟨n, rfl⟩
    | atomic type => cases hshape
    | undeclared => cases hshape
  | cons b place ih =>
    obtain ⟨x, c, _, hc, hbelow⟩ := h
    obtain ⟨m, hm⟩ := ih hbelow
    obtain ⟨n, hn, _⟩ := leads_of_child? hc hm
    exact ⟨n, hn⟩

/-- The places that a walk comes to are those that the steps of the schema lead to. -/
theorem mismatchAt_described_iff {n : Node β} :
    MismatchAt path (.described n) v place fault ↔ ∃ steps x m, v.Spells place steps ∧
      v.at? place = some x ∧ n.Reaches steps m ∧ m.Refuses ⟨path.steps ++ steps⟩ x fault := by
  induction place generalizing path v n with
  | nil =>
    rw [MismatchAt, demand_described]
    constructor
    · intro h
      refine ⟨[], v, n, rfl, rfl, rfl, ?_⟩
      rw [List.append_nil]
      exact h
    · rintro ⟨steps, x, m, rfl, hx, rfl, h⟩
      rw [List.append_nil] at h
      cases hx
      exact h
  | cons b place ih =>
    rw [MismatchAt]
    constructor
    · rintro ⟨x, ⟨step, next⟩, hx, hc, h⟩
      obtain ⟨m, rfl⟩ := h.described
      obtain ⟨n', hn, hleads⟩ := leads_of_child? hc rfl
      cases hn
      obtain ⟨steps, y, k, hspells, hy, hreaches, hrefuses⟩ := ih.mp h
      refine ⟨step :: steps, y, k, ⟨x, step, steps, hx, names_of_child? hc, hspells, rfl⟩, ?_,
        ⟨m, hleads, hreaches⟩, ?_⟩
      · rw [Value.at?, hx]
        exact hy
      · rw [Path.push_steps, List.append_assoc] at hrefuses
        exact hrefuses
    · rintro ⟨steps, y, k, ⟨x, step, rest, hx, hnames, hspells, rfl⟩, hy, ⟨m, hleads, hreaches⟩,
        hrefuses⟩
      rw [Value.at?, hx] at hy
      refine ⟨x, ⟨step, .described m⟩, hx, child?_of_leads hleads hnames, ih.mpr ?_⟩
      refine ⟨rest, y, k, hspells, hy, hreaches, ?_⟩
      rw [Path.push_steps, List.append_assoc]
      exact hrefuses

end Position

theorem Schema.mismatchAt_iff {s : Schema β} {v : Value} {place : List Branch} {fault : Fault} :
    s.MismatchAt v place fault ↔
      Position.MismatchAt .root (.described (.block s.root)) v place fault := by
  rw [Position.mismatchAt_described_iff]
  constructor
  · rintro ⟨path, x, n, hspells, hx, hn, hrefuses⟩
    exact ⟨path.steps, x, n, hspells, hx, nodeAt_eq_ok_iff.mp hn, hrefuses⟩
  · rintro ⟨steps, x, n, hspells, hx, hn, hrefuses⟩
    exact ⟨⟨steps⟩, x, n, hspells, hx, nodeAt_eq_ok_iff.mpr hn, hrefuses⟩

/-- What stands right below has fewer levels. -/
theorem Value.depth_lt_of_part? {v x : Value} {b : Branch} (h : v.part? b = some x) :
    x.depth < v.depth := by
  cases v <;> cases b <;> try cases h
  · have hle := depth_le_itemsDepth (List.mem_of_getElem? h)
    rw [depth]
    omega
  · have hle : x.depth ≤ _ := depth_le_entriesDepth (Keyed.mem_of_get? h)
    rw [depth]
    omega

/-! ## Checking part by part -/

namespace Verdict

variable {α γ : Type} {fails fails' : List Branch → Fault → Prop} {a : α} {e : Except Fault α}

theorem congr (h : Verdict fails a e)
    (hiff : ∀ place fault, fails' place fault ↔ fails place fault) : Verdict fails' a e := by
  have heq : fails' = fails := by
    funext place fault
    exact propext (hiff place fault)
  rw [heq]
  exact h

/-- The checks of a part are checks of the whole, at the places below the part. -/
theorem under (h : Verdict fails a e) (b : Branch) :
    Verdict (fun place fault => ∃ rest, place = b :: rest ∧ fails rest fault) a e := by
  cases h with
  | accepted hnone =>
    refine .accepted fun place fault => ?_
    rintro ⟨rest, _, hrest⟩
    exact hnone rest fault hrest
  | @refused place fault hplace hfirst =>
    refine .refused ⟨place, rfl, hplace⟩ fun other fault' => ?_
    rintro ⟨rest, rfl, hrest⟩
    rcases hfirst rest fault' hrest with rfl | hbefore
    · exact .inl rfl
    · exact .inr (.cons hbefore)

/-- Of two checks one after the other, the first to fail is the one that counts. -/
theorem bind {c : γ} {f : α → Except Fault γ} (h : Verdict fails a e) (h' : Verdict fails' c (f a))
    (hbefore : ∀ place fault place' fault', fails place fault → fails' place' fault' →
      PlaceBefore place place') :
    Verdict (fun place fault => fails place fault ∨ fails' place fault) c (e >>= f) := by
  cases h with
  | accepted hnone =>
    refine h'.congr fun place fault => ?_
    constructor
    · rintro (hplace | hplace)
      · exact absurd hplace (hnone place fault)
      · exact hplace
    · exact .inr
  | @refused place fault hplace hfirst =>
    refine .refused (.inl hplace) fun other fault' hother => ?_
    rcases hother with hother | hother
    · exact hfirst other fault' hother
    · exact .inr (hbefore place fault other fault' hplace hother)

theorem map (h : Verdict fails a e) (g : α → γ) :
    Verdict fails (g a) (do return g (← e)) := by
  cases h with
  | accepted hnone => exact .accepted hnone
  | refused hplace hfirst => exact .refused hplace hfirst

end Verdict

namespace Position

variable {walk : Path → Position β → Value → Except Fault Value} {path : Path}

/-- What is refused in one of the items of a list. -/
def MismatchInItems (path : Path) (child : Nat → Value → Child β) (i : Nat) (xs : List Value)
    (place : List Branch) (fault : Fault) : Prop :=
  ∃ j x rest, xs[j]? = some x ∧ place = .item (i + j) :: rest ∧
    MismatchAt (path.push (child (i + j) x).step) (child (i + j) x).position x rest fault

/-- What is refused in one of the entries of a map. -/
def MismatchInEntries (path : Path) (child : String → Child β) (es : List (String × Value))
    (place : List Branch) (fault : Fault) : Prop :=
  ∃ k x rest, (k, x) ∈ es ∧ place = .entry k :: rest ∧
    MismatchAt (path.push (child k).step) (child k).position x rest fault

theorem verdict_walkItems {child : Nat → Value → Child β} {i : Nat} {xs : List Value}
    (h : ∀ (j : Nat) x, xs[j]? = some x →
      let c := child (i + j) x
      Verdict (MismatchAt (path.push c.step) c.position x) x
        (walk (path.push c.step) c.position x)) :
    Verdict (MismatchInItems path child i xs) xs (walkItems walk path child i xs) := by
  induction xs generalizing i with
  | nil =>
    refine .accepted fun place fault => ?_
    rintro ⟨j, x, rest, hx, _⟩
    cases hx
  | cons x xs ih =>
    have hrest := ih (i := i + 1) (fun j y hy => by
      have := h (j + 1) y hy
      rwa [Nat.add_comm j 1, ← Nat.add_assoc] at this)
    have hfirst := (h 0 x rfl).under (.item i)
    refine (hfirst.bind (hrest.map (x :: ·)) ?_).congr fun place fault => ?_
    · rintro place fault place' fault' ⟨rest, rfl, _⟩ ⟨j, y, rest', _, rfl, _⟩
      exact .rel (.item (by omega))
    · constructor
      · rintro ⟨j, y, rest, hy, rfl, hmismatch⟩
        cases j with
        | zero =>
          cases hy
          exact .inl ⟨rest, rfl, hmismatch⟩
        | succ j =>
          rw [Nat.add_comm j 1, ← Nat.add_assoc] at hmismatch ⊢
          exact .inr ⟨j, y, rest, hy, rfl, hmismatch⟩
      · rintro (⟨rest, rfl, hmismatch⟩ | ⟨j, y, rest, hy, rfl, hmismatch⟩)
        · exact ⟨0, x, rest, rfl, rfl, hmismatch⟩
        · refine ⟨j + 1, y, rest, hy, ?_⟩
          rw [Nat.add_comm j 1, ← Nat.add_assoc]
          exact ⟨rfl, hmismatch⟩

theorem verdict_walkEntries {child : String → Child β} {es : List (String × Value)}
    (hes : Keyed.Ascending es)
    (h : ∀ e ∈ es,
      let c := child e.1
      Verdict (MismatchAt (path.push c.step) c.position e.2) e.2
        (walk (path.push c.step) c.position e.2)) :
    Verdict (MismatchInEntries path child es) es (walkEntries walk path child es) := by
  induction es with
  | nil =>
    refine .accepted fun place fault => ?_
    rintro ⟨k, x, rest, hx, _⟩
    cases hx
  | cons e es ih =>
    obtain ⟨k, x⟩ := e
    obtain ⟨hlt, hes⟩ := List.pairwise_cons.mp hes
    have hrest := ih hes fun e he => h e (List.mem_cons_of_mem _ he)
    have hfirst := (h (k, x) List.mem_cons_self).under (.entry k)
    refine (hfirst.bind (hrest.map ((k, x) :: ·)) ?_).congr fun place fault => ?_
    · rintro place fault place' fault' ⟨rest, rfl, _⟩ ⟨l, y, rest', hy, rfl, _⟩
      exact .rel (.entry (hlt _ hy))
    · constructor
      · rintro ⟨l, y, rest, hy, rfl, hmismatch⟩
        rcases List.mem_cons.mp hy with hy | hy
        · cases hy
          exact .inl ⟨rest, rfl, hmismatch⟩
        · exact .inr ⟨l, y, rest, hy, rfl, hmismatch⟩
      · rintro (⟨rest, rfl, hmismatch⟩ | ⟨l, y, rest, hy, rfl, hmismatch⟩)
        · exact ⟨k, x, rest, List.mem_cons_self, rfl, hmismatch⟩
        · exact ⟨l, y, rest, List.mem_cons_of_mem _ hy, rfl, hmismatch⟩

/-- No items continue a position exactly if a shape is asked for there that lists do not have. -/
theorem itemChild_eq_none_iff {position : Position β} :
    position.itemChild = none ↔ ∃ shape, position.demand = some shape ∧ shape.kind ≠ .list := by
  cases position with
  | described n =>
    simp only [itemChild, demand]
    cases n.view <;> simp [Shape.kind]
  | atomic type => simp [itemChild, demand]
  | undeclared => simp [itemChild, demand]

/-- No entries continue a position exactly if a shape is asked for there that maps do not have. -/
theorem entryChild_eq_none_iff {position : Position β} :
    position.entryChild = none ↔ ∃ shape, position.demand = some shape ∧ shape.kind ≠ .map := by
  cases position with
  | described n =>
    simp only [entryChild, demand]
    cases n.view <;> simp [Shape.kind]
  | atomic type => simp [entryChild, demand]
  | undeclared => simp [entryChild, demand]

variable {position : Position β} {v : Value}

/-- A known value is refused where it stands if any shape is asked for that it has not. -/
theorem verdict_mismatch (hknown : v.isKnown = true)
    (hkind : ∀ shape, position.demand = some shape → v.kind ≠ shape.kind)
    (hparts : position.demand = none → ∀ b, v.part? b = none) :
    Verdict (MismatchAt path position v) v (walkBelow.mismatch path position v) := by
  unfold walkBelow.mismatch
  cases hdemand : position.demand with
  | some shape =>
    have hhere : MismatchAt path position v [] (.shapeMismatch path shape v.kind) :=
      ⟨shape, hdemand, hknown, hkind shape hdemand, rfl⟩
    refine .refused hhere fun other fault' _ => ?_
    cases other with
    | nil => exact .inl rfl
    | cons b other => exact .inr .nil
  | none =>
    refine .accepted fun place fault => ?_
    cases place with
    | nil =>
      rintro ⟨shape, hshape, _⟩
      rw [hdemand] at hshape
      cases hshape
    | cons b place =>
      rintro ⟨x, c, hx, _⟩
      rw [hparts hdemand b] at hx
      cases hx

theorem verdict_mismatch_of_demand (hknown : v.isKnown = true)
    (h : ∃ shape, position.demand = some shape ∧ shape.kind ≠ v.kind) :
    Verdict (MismatchAt path position v) v (walkBelow.mismatch path position v) := by
  obtain ⟨shape, hshape, hkind⟩ := h
  refine verdict_mismatch hknown (fun shape' hshape' => ?_) (fun hdemand => ?_)
  · rw [hshape] at hshape'
    cases hshape'
    exact Ne.symm hkind
  · rw [hshape] at hdemand
    cases hdemand

theorem mismatchAt_list_iff {child : Nat → Value → Child β} {xs : List Value}
    {place : List Branch} {fault : Fault} (hc : position.itemChild = some child) :
    MismatchAt path position (.list xs) place fault ↔
      MismatchInItems path child 0 xs place fault := by
  unfold MismatchInItems
  simp only [Nat.zero_add]
  constructor
  · intro h
    cases place with
    | nil =>
      obtain ⟨shape, hshape, _, hkind, _⟩ := h
      have hnone := itemChild_eq_none_iff.mpr ⟨shape, hshape, Ne.symm hkind⟩
      rw [hc] at hnone
      cases hnone
    | cons b place =>
      obtain ⟨x, c, hx, hchild, h⟩ := h
      cases b with
      | entry k => cases hx
      | item j =>
        rw [child?, hc] at hchild
        cases hchild
        exact ⟨j, x, place, hx, rfl, h⟩
  · rintro ⟨j, x, rest, hx, rfl, h⟩
    refine ⟨x, child j x, hx, ?_, h⟩
    rw [child?, hc]
    rfl

theorem mismatchAt_map_iff {child : String → Child β} {es : List (String × Value)}
    {place : List Branch} {fault : Fault} (hes : Keyed.Ascending es)
    (hc : position.entryChild = some child) :
    MismatchAt path position (.map es) place fault ↔
      MismatchInEntries path child es place fault := by
  constructor
  · intro h
    cases place with
    | nil =>
      obtain ⟨shape, hshape, _, hkind, _⟩ := h
      have hnone := entryChild_eq_none_iff.mpr ⟨shape, hshape, Ne.symm hkind⟩
      rw [hc] at hnone
      cases hnone
    | cons b place =>
      obtain ⟨x, c, hx, hchild, h⟩ := h
      cases b with
      | item j => cases hx
      | entry k =>
        rw [child?, hc] at hchild
        cases hchild
        exact ⟨k, x, place, Keyed.mem_of_get? hx, rfl, h⟩
  · rintro ⟨k, x, rest, hx, rfl, h⟩
    refine ⟨x, child k, Keyed.get?_of_mem hes hx, ?_, h⟩
    rw [child?, hc]
    rfl

/-- A value is checked where it stands, and then part by part. -/
theorem verdict_walkBelow (hv : v.Ordered)
    (h : ∀ b x c, v.part? b = some x → position.child? x b = some c →
      Verdict (MismatchAt (path.push c.step) c.position x) x
        (walk (path.push c.step) c.position x)) :
    Verdict (MismatchAt path position v) v (walkBelow walk path position v) := by
  cases v
  case list xs =>
    unfold walkBelow
    cases hc : position.itemChild with
    | none => exact verdict_mismatch_of_demand rfl (itemChild_eq_none_iff.mp hc)
    | some child =>
      refine (Verdict.map (verdict_walkItems fun j x hx => ?_) Value.list).congr
        fun place fault => mismatchAt_list_iff hc
      rw [Nat.zero_add]
      exact h (.item j) x (child j x) hx (by rw [child?, hc]; rfl)
  case map es =>
    unfold walkBelow
    cases hc : position.entryChild with
    | none => exact verdict_mismatch_of_demand rfl (entryChild_eq_none_iff.mp hc)
    | some child =>
      have hes := hv.ascending
      refine (Verdict.map (verdict_walkEntries hes fun e he => ?_) Value.map).congr
        fun place fault => mismatchAt_map_iff hes hc
      exact h (.entry e.1) e.2 (child e.1) (Keyed.get?_of_mem hes he) (by rw [child?, hc]; rfl)
  case null | unknown =>
    refine .accepted fun place fault => ?_
    cases place with
    | nil =>
      rintro ⟨_, _, hknown, _⟩
      cases hknown
    | cons b place =>
      rintro ⟨x, _, hx, _⟩
      rw [Value.part?_of_atom rfl] at hx
      cases hx
  all_goals
    exact verdict_mismatch rfl (fun shape _ => shape.ne_kind_of_atom rfl) fun _ =>
      Value.part?_of_atom rfl

/-- With levels enough, the walk from the top down that changes nothing finds the first mismatch. -/
theorem verdict_walkLevels {levels : Nat} (hv : v.Ordered) (hlevels : v.depth < levels) :
    Verdict (MismatchAt path position v) v
      (walkLevels .topDown (fun _ _ x => .ok x : Visit β (Except Fault)) levels path position
        v) := by
  induction levels generalizing path position v with
  | zero => omega
  | succ levels ih =>
    refine verdict_walkBelow hv fun b x c hx _ => ih (hv.part hx) ?_
    have hdepth := Value.depth_lt_of_part? hx
    omega

end Position

/-! ## Whole values -/

/-- A walk that changes nothing is the same in both orders. -/
theorem walkLevels_unchanged (order : WalkOrder) (levels : Nat) (path : Path)
    (position : Position β) (v : Value) :
    walkLevels order (fun _ _ x => .ok x : Visit β (Except Fault)) levels path position v =
      walkLevels .topDown (fun _ _ x => .ok x) levels path position v := by
  cases order with
  | topDown => rfl
  | bottomUp =>
    induction levels generalizing path position v with
    | zero => rfl
    | succ levels ih =>
      have hbelow : walkLevels .bottomUp (fun _ _ x => .ok x : Visit β (Except Fault)) levels =
          walkLevels .topDown (fun _ _ x => .ok x) levels := by
        funext path position v
        exact ih path position v
      simp only [walkLevels, hbelow]
      exact bind_pure _

/-- A visitor that changes nothing finds what is wrong with the shape of a value: whatever else it
does, and in both orders, the walk comes to the value itself if every described place that is known
has its shape, and to the fault of the first place that has not. -/
theorem transform_unchanged (s : Schema β) {v : Value} (hv : v.Ordered) :
    ∃ outcome, Verdict (s.MismatchAt v) v outcome ∧
      (∀ order, s.transform order (fun _ _ x => .ok x) v = outcome) ∧
      ∀ (τ : Type) (visit : Visit β (ExceptT Fault (StateM τ))),
        (∀ path node x t, ((visit path node x).run t).1 = .ok x) →
        ∀ order t, ((s.transform order visit v).run t).1 = outcome := by
  have hverdict : Verdict (Position.MismatchAt .root (.described (.block s.root)) v) v _ :=
    Position.verdict_walkLevels hv (Nat.lt_succ_self v.depth)
  refine ⟨_, hverdict.congr fun place fault => Schema.mismatchAt_iff, fun order => ?_, ?_⟩
  · exact walkLevels_unchanged order _ .root _ v
  · intro τ visit hvisit order t
    rw [← walkLevels_unchanged order]
    exact (observes_outcome τ).walkLevels hvisit order _ .root _ v t

/-- Disks, each with a size, and labels. -/
def diskSchema : PlainSchema :=
  let disk := Block.empty.withAttribute "size" .requiredString
  let labels := .ofNested .map [("text", .optionalString)] .optionalOnly
  (Schema.empty.withBlock "disks" (.ofMode .list disk)).withAttribute "labels" labels

/-- One of the disks is a text, and so are the labels. -/
def misplacedDisk : Value :=
  .map [
    ("disks", .list [.map [("size", .string "small")], .string "large"]),
    ("labels", .string "a")]

theorem ordered_misplacedDisk : misplacedDisk.Ordered := by
  have hdisk : (Value.map [("size", .string "small")]).Ordered :=
    Value.ordered_entry.mpr (Value.ordered_string _)
  have hdisks : (Value.list [.map [("size", .string "small")], .string "large"]).Ordered := by
    refine .list fun x hx => ?_
    simp only [List.mem_cons, List.not_mem_nil, or_false] at hx
    rcases hx with rfl | rfl
    · exact hdisk
    · exact Value.ordered_string _
  exact Value.ordered_of_keys (by decide) (by simp [hdisks])

/-- The walk ends at the disk, which comes before the labels. -/
theorem transform_misplacedDisk :
    misplacedDisk.Ordered ∧
    Verdict (diskSchema.MismatchAt misplacedDisk) misplacedDisk
      (.error (.shapeMismatch ((Path.root.field "disks").index 1) .object .string)) ∧
    ∀ order, diskSchema.transform order (fun _ _ x => .ok x) misplacedDisk =
      (.error (.shapeMismatch ((Path.root.field "disks").index 1) .object .string) :
        Except Fault Value) := by
  obtain ⟨outcome, hverdict, horder, _⟩ := transform_unchanged diskSchema ordered_misplacedDisk
  have houtcome : outcome =
      .error (.shapeMismatch ((Path.root.field "disks").index 1) .object .string) :=
    (horder .topDown).symm
  rw [houtcome] at hverdict horder
  exact ⟨ordered_misplacedDisk, hverdict, horder⟩

end ProviderKit
