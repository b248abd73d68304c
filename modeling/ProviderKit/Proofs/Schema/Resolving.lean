import ProviderKit.Proofs.Schema.Fitting
import ProviderKit.Proofs.Schema.Visited
import ProviderKit.Proofs.Value.Equality

-- The paths of a walk, followed from the root once more. In the value they lead to what was
-- visited, up to equality; in the schema they lead to the node that the visitor was told of, or
-- to the fault that it was told instead.

namespace ProviderKit

variable {β : Type}

/-! ## Following a path in the value -/

namespace Value

/-- A name of a branch leads to what stands there, or to an element that equals it and stands
further in front. -/
theorem step?_of_names {v x : Value} {b : Branch} {s : Step} (hx : v.part? b = some x)
    (hs : x.Names b s) : ∃ y, v.step? s = some y ∧ y.same x = true := by
  cases v
  case map es =>
    cases hs with
    | field k => exact ⟨x, hx, x.same_self⟩
    | key k => exact ⟨x, hx, x.same_self⟩
    | index i => cases hx
    | element i => cases hx
  case list xs =>
    cases hs with
    | field k => cases hx
    | key k => cases hx
    | index i => exact ⟨x, hx, x.same_self⟩
    | element i => exact find?_of_mem (List.mem_of_getElem? hx)
  all_goals
    rw [part?_of_atom rfl] at hx
    cases hx

/-- Steps that name a place lead to what stands there, from an equal value too. -/
theorem reach?_of_spells {u v x : Value} {place : List Branch} {steps : List Step}
    (huv : u.same v = true) (hspells : v.Spells place steps) (hx : v.at? place = some x) :
    ∃ y, u.reach? steps = some y ∧ y.same x = true := by
  induction place generalizing u v steps with
  | nil =>
    cases hx
    rw [show steps = [] from hspells]
    exact ⟨u, rfl, huv⟩
  | cons b place ih =>
    obtain ⟨z, s, rest, hz, hnames, hspells, rfl⟩ := hspells
    rw [at?, hz] at hx
    obtain ⟨y, hy, hyz⟩ := step?_of_names hz hnames
    have hrel := step?_same huv s
    rw [hy] at hrel
    obtain ⟨t, ht, hty⟩ := exists_of_rel_some_right hrel
    rw [reach?, ht]
    exact ih (same_trans t hty hyz) hspells hx

end Value

/-! ## Positions without nodes -/

namespace Position

variable {path : Path} {position : Position β} {v x : Value} {b : Branch} {c : Child β}
  {place : List Branch} {visit : Visited β}

theorem node_of_visitAt?_atomic {type : Option AttributeType}
    (h : visitAt? path (.atomic type) v place = some visit) :
    visit.node = .error (.insideAtomic visit.path) := by
  induction place generalizing path type v with
  | nil =>
    cases h
    rfl
  | cons b place ih =>
    obtain ⟨x, _, h⟩ := Option.bind_eq_some_iff.mp h
    obtain ⟨⟨step, next⟩, hc, h⟩ := Option.bind_eq_some_iff.mp h
    obtain ⟨inner, rfl⟩ := exists_atomic_of_child? hc nofun
    exact ih h

end Position

/-! ## Following a path in the schema -/

/-- How the schema goes on from a node, where a walk goes on with a step and a position. -/
inductive Node.GoesOn (n : Node β) : Position.Child β → Prop
  | described {step : Step} {m : Node β} : n.Leads step m → GoesOn n ⟨step, .described m⟩
  | undeclared {attributes : List (String × Attribute β)} {blocks : List (String × NestedBlock β)}
      {name : String} : n.view = .object attributes blocks →
      Node.member? attributes blocks name = none → GoesOn n ⟨.field name, .undeclared⟩
  | inside {step : Step} {type : AttributeType} {inner : Option AttributeType} :
      n.view = .atomic type → GoesOn n ⟨step, .atomic inner⟩

theorem Node.goesOn_of_atomic {n : Node β} {type : AttributeType} (hv : n.view = .atomic type)
    {c : Position.Child β} (hc : ∃ inner, c.position = .atomic inner) : n.GoesOn c := by
  obtain ⟨step, position⟩ := c
  obtain ⟨inner, rfl⟩ := hc
  exact .inside hv

theorem Node.goesOn_of_child? {n : Node β} {x : Value} {b : Branch} {c : Position.Child β}
    (h : (Position.described n).child? x b = some c) : n.GoesOn c := by
  cases b with
  | entry k =>
    obtain ⟨child, hc, rfl⟩ := Option.map_eq_some_iff.mp h
    simp only [Position.entryChild] at hc
    cases hv : n.view <;> simp only [hv, Option.some.injEq, reduceCtorEq] at hc
    case object attributes blocks =>
      rw [← hc]
      cases hm : Node.member? attributes blocks k with
      | none => simpa [hm] using GoesOn.undeclared hv hm
      | some m => simpa [hm] using GoesOn.described (.member hv hm)
    case map element =>
      rw [← hc]
      exact .described (.entry k hv)
    case atomic type =>
      rw [← hc]
      exact goesOn_of_atomic hv (Position.exists_atomicEntry_position (some type) k)
  | item i =>
    obtain ⟨child, hc, rfl⟩ := Option.map_eq_some_iff.mp h
    simp only [Position.itemChild] at hc
    cases hv : n.view <;> simp only [hv, Option.some.injEq, reduceCtorEq] at hc
    case list element =>
      rw [← hc]
      exact .described (.item i hv)
    case set element =>
      rw [← hc]
      exact .described (.element x hv)
    case atomic type =>
      rw [← hc]
      exact goesOn_of_atomic hv (Position.exists_atomicItem_position (some type) i x)

section

variable {whole walked : Path} {n : Node β} {s : Step} {steps : List Step} {parent : Path}
  {name : String}

/-- The name that a step leads to is not in the schema. -/
theorem stepFrom_eq_notInSchema_iff :
    Schema.stepFrom whole walked n s = .error (.notInSchema parent name) ↔
      ∃ attributes blocks, n.view = .object attributes blocks ∧ s = .field name ∧
        Node.member? attributes blocks name = none ∧ parent = walked := by
  unfold Schema.stepFrom
  constructor
  · intro h
    split at h
    · next hv =>
      split at h
      · cases h
      · next hm =>
        cases h
        exact ⟨_, _, hv, rfl, hm, rfl⟩
    all_goals cases h
  · rintro ⟨attributes, blocks, hv, rfl, hm, rfl⟩
    simp only [hv, hm]

theorem stepFrom_of_atomic {type : AttributeType} (hv : n.view = .atomic type) :
    Schema.stepFrom whole walked n s = .error (.insideAtomic whole) := by
  unfold Schema.stepFrom
  simp only [hv]

/-- Behind a name that is not in the schema, further steps lead nowhere else. -/
theorem follow_append_of_notInSchema
    (h : Schema.follow whole walked n steps = .error (.notInSchema parent name))
    (whole' : Path) (rest : List Step) :
    Schema.follow whole' walked n (steps ++ rest) = .error (.notInSchema parent name) := by
  induction steps generalizing walked n with
  | nil => cases h
  | cons s steps ih =>
    rw [List.cons_append]
    unfold Schema.follow at h ⊢
    cases hstep : Schema.stepFrom whole walked n s with
    | error fault =>
      rw [hstep] at h
      cases h
      rw [stepFrom_eq_notInSchema_iff.mpr (stepFrom_eq_notInSchema_iff.mp hstep)]
      rfl
    | ok m =>
      rw [hstep] at h
      rw [stepFrom_eq_ok_iff.mpr (stepFrom_eq_ok_iff.mp hstep)]
      exact ih h

end

/-! ## Visits -/

/-- A visit is above another: its path leads further to that of the other. -/
def Visited.Above (u visit : Visited β) : Prop :=
  ∃ rest, rest ≠ [] ∧ visit.path.steps = u.path.steps ++ rest

/-- What the steps to a visit come to in the schema, beside what the visitor is told there. -/
inductive Visited.Resolved (visit : Visited β) (found : List Branch → Option (Visited β))
    (outcome : Path → Except Fault (Node β)) : Prop
  | described {n : Node β} : visit.node = .ok n → (∀ whole, outcome whole = .ok n) →
      Resolved visit found outcome
  | undeclared {parent : Path} {name : String} :
      visit.node = .error (.notInSchema parent name) →
      (∀ whole, outcome whole = .error (.notInSchema parent name)) →
      Resolved visit found outcome
  | inside : visit.node = .error (.insideAtomic visit.path) →
      (∀ whole, outcome whole = .error (.insideAtomic whole)) → Resolved visit found outcome
  | below {place : List Branch} {u : Visited β} {parent : Path} {name : String} :
      visit.node = .error (.insideAtomic visit.path) → found place = some u → u.Above visit →
      u.node = .error (.notInSchema parent name) → Resolved visit found outcome

theorem Position.node_undeclared (walked : Path) (name : String) :
    (Position.undeclared (β := β)).node (walked.push (.field name)) =
      .error (.notInSchema walked name) := by
  simp [node, lastName, Path.last?, Path.parent?, Path.isRoot]

/-- A walk that goes on from a name that is not in the schema is told only that it is inside an
atomic attribute, and has passed that name. -/
theorem Position.resolved_of_visitAt?_undeclared {walked : Path} {name : String} {x : Value}
    {place : List Branch} {visit : Visited β} {found : List Branch → Option (Visited β)}
    {outcome : Path → Except Fault (Node β)} {b : Branch}
    (h : visitAt? (walked.push (.field name)) .undeclared x place = some visit)
    (hfound : ∀ rest, found (b :: rest) = visitAt? (walked.push (.field name)) .undeclared x rest)
    (houtcome : ∀ whole, outcome whole = .error (.notInSchema walked name)) :
    visit.Resolved found outcome := by
  cases place with
  | nil =>
    cases h
    exact .undeclared (node_undeclared walked name) houtcome
  | cons d place =>
    obtain ⟨y, hy, h⟩ := Option.bind_eq_some_iff.mp h
    obtain ⟨⟨step, next⟩, hc, h⟩ := Option.bind_eq_some_iff.mp h
    obtain ⟨inner, rfl⟩ := exists_atomic_of_child? hc nofun
    obtain ⟨steps, hsteps, _⟩ := spells_of_visitAt? h
    refine .below (node_of_visitAt?_atomic h) (hfound []) ⟨step :: steps, nofun, ?_⟩
      (node_undeclared walked name)
    rw [hsteps]
    simp

theorem Position.resolved_of_visitAt? {walked : Path} {n : Node β} {v : Value}
    {place : List Branch} {visit : Visited β}
    (h : visitAt? walked (.described n) v place = some visit) :
    ∃ steps, visit.path.steps = walked.steps ++ steps ∧
      visit.Resolved (visitAt? walked (.described n) v) fun whole =>
        Schema.follow whole walked n steps := by
  induction place generalizing walked n v with
  | nil =>
    cases h
    exact ⟨[], (List.append_nil _).symm, .described rfl fun _ => rfl⟩
  | cons b place ih =>
    obtain ⟨x, hx, h⟩ := Option.bind_eq_some_iff.mp h
    obtain ⟨c, hc, h⟩ := Option.bind_eq_some_iff.mp h
    have hfound : ∀ rest, visitAt? walked (.described n) v (b :: rest) =
        visitAt? (walked.push c.step) c.position x rest := by
      intro rest
      simp [visitAt?, hx, hc]
    obtain ⟨steps, hsteps, _⟩ := spells_of_visitAt? h
    refine ⟨c.step :: steps, by rw [hsteps]; simp, ?_⟩
    cases Node.goesOn_of_child? hc with
    | @described step m hleads =>
      have hfollow : ∀ whole, Schema.follow whole walked n (step :: steps) =
          Schema.follow whole (walked.push step) m steps := by
        intro whole
        rw [Schema.follow, stepFrom_eq_ok_iff.mpr hleads]
        rfl
      obtain ⟨steps', hsteps', hresolved⟩ := ih h
      rw [List.append_cancel_left (hsteps'.symm.trans hsteps)] at hresolved
      simp only [hfollow]
      cases hresolved with
      | described hnode hout => exact .described hnode hout
      | undeclared hnode hout => exact .undeclared hnode hout
      | inside hnode hout => exact .inside hnode hout
      | below hnode hu habove hundeclared =>
        exact .below hnode ((hfound _).trans hu) habove hundeclared
    | @undeclared attributes blocks name hv hm =>
      refine resolved_of_visitAt?_undeclared h hfound fun whole => ?_
      rw [Schema.follow, stepFrom_eq_notInSchema_iff.mpr ⟨attributes, blocks, hv, rfl, hm, rfl⟩]
      rfl
    | inside hv =>
      refine .inside (node_of_visitAt?_atomic h) fun whole => ?_
      rw [Schema.follow, stepFrom_of_atomic hv]
      rfl

theorem Schema.resolved_of_visitAt? {s : Schema β} {v : Value} {place : List Branch}
    {visit : Visited β} (h : s.visitAt? v place = some visit) :
    visit.Resolved (s.visitAt? v) fun whole =>
      Schema.follow whole .root (.block s.root) visit.path.steps := by
  obtain ⟨steps, hsteps, hresolved⟩ := Position.resolved_of_visitAt? h
  rw [show visit.path.steps = steps from hsteps]
  exact hresolved

/-- Where a visitor is told that a name is not in the schema, the path leads to that fault, and so
does every path that goes on from there. -/
theorem Schema.nodeAt_of_visitAt?_undeclared {s : Schema β} {v : Value} {place : List Branch}
    {u visit : Visited β} (h : s.visitAt? v place = some u) {parent : Path} {name : String}
    (hnode : u.node = .error (.notInSchema parent name)) (habove : u = visit ∨ u.Above visit) :
    s.nodeAt visit.path = .error (.notInSchema parent name) := by
  have hfollow : ∀ whole, Schema.follow whole .root (.block s.root) u.path.steps =
      .error (.notInSchema parent name) := by
    intro whole
    cases Schema.resolved_of_visitAt? h with
    | undeclared hnode' houtcome =>
      rw [hnode] at hnode'
      cases hnode'
      exact houtcome whole
    | described hnode' _ => cases hnode.symm.trans hnode'
    | inside hnode' _ => cases hnode.symm.trans hnode'
    | below hnode' _ _ _ => cases hnode.symm.trans hnode'
  unfold Schema.nodeAt
  rcases habove with rfl | ⟨rest, _, hsteps⟩
  · exact hfollow _
  · rw [hsteps]
    exact follow_append_of_notInSchema (hfollow .root) _ rest

/-- The paths of a walk resolve. In the value, the path of a visit leads to what was visited, up to
equality. In the schema, it leads to the node that the visitor was told of. Where the visitor was
told that a name is not in the schema, it leads to that fault; where it was told that it is inside
an atomic attribute, it leads to this fault unless it passes a name that is not in the schema, and
then to the fault of that name. No visitor is told anything else. -/
theorem visits_resolve (s : Schema β) {v w : Value} (hv : v.Ordered)
    (h : s.transform .topDown (fun _ _ x => .ok x) v = (.ok w : Except Fault Value))
    {visit : Visited β} (hvisit : visit ∈ s.visits .topDown v) :
    (∃ x, v.atPath visit.path = .ok x ∧ x.same visit.value = true) ∧
    (∀ n, visit.node = .ok n → s.nodeAt visit.path = .ok n) ∧
    ∀ fault, visit.node = .error fault →
      (∃ parent name, fault = .notInSchema parent name ∧ s.nodeAt visit.path = .error fault) ∨
      fault = .insideAtomic visit.path ∧
        (∀ u ∈ s.visits .topDown v, u.Above visit → ∀ parent name,
          u.node = .error (.notInSchema parent name) →
          s.nodeAt visit.path = .error (.notInSchema parent name)) ∧
        ((∀ u ∈ s.visits .topDown v, u.Above visit → ∀ parent name,
          u.node ≠ .error (.notInSchema parent name)) → s.nodeAt visit.path = .error fault) := by
  have hshape := rebuilds_checking_of_transform h
  have hmem : ∀ u, u ∈ s.visits .topDown v ↔ ∃ place, s.visitAt? v place = some u :=
    fun _ => Schema.mem_visits_iff hv hshape
  obtain ⟨place, hplace⟩ := (hmem visit).mp hvisit
  obtain ⟨hspells, hvalue⟩ := Schema.spells_of_visitAt? hplace
  have habove : ∀ u ∈ s.visits .topDown v, u.Above visit → ∀ parent name,
      u.node = .error (.notInSchema parent name) →
      s.nodeAt visit.path = .error (.notInSchema parent name) := by
    intro u hu hvisit parent name hnode
    obtain ⟨place, hplace⟩ := (hmem u).mp hu
    exact Schema.nodeAt_of_visitAt?_undeclared hplace hnode (.inr hvisit)
  refine ⟨?_, fun n hn => ?_, fun fault hfault => ?_⟩
  · obtain ⟨x, hx, hsame⟩ := Value.reach?_of_spells v.same_self hspells hvalue
    exact ⟨x, (v.atPath_eq_ok_iff x visit.path).mpr hx, hsame⟩
  · cases Schema.resolved_of_visitAt? hplace with
    | described hnode houtcome =>
      rw [hn] at hnode
      cases hnode
      exact houtcome visit.path
    | undeclared hnode _ => cases hn.symm.trans hnode
    | inside hnode _ => cases hn.symm.trans hnode
    | below hnode _ _ _ => cases hn.symm.trans hnode
  · cases Schema.resolved_of_visitAt? hplace with
    | described hnode _ => cases hfault.symm.trans hnode
    | @undeclared parent name hnode houtcome =>
      rw [hfault] at hnode
      cases hnode
      exact .inl ⟨parent, name, rfl, houtcome visit.path⟩
    | inside hnode houtcome =>
      rw [hfault] at hnode
      cases hnode
      exact .inr ⟨rfl, habove, fun _ => houtcome visit.path⟩
    | @below place u parent name hnode hu hpasses hundeclared =>
      rw [hfault] at hnode
      cases hnode
      refine .inr ⟨rfl, habove, fun hnone => ?_⟩
      exact absurd hundeclared (hnone u ((hmem u).mpr ⟨place, hu⟩) hpasses parent name)

/-- The author of a note that is not in the schema. -/
def noteAuthor : Visited Unit :=
  let path := (Path.root.field "note").key "by"
  ⟨path, .error (.insideAtomic path), .string "a"⟩

/-- The path of the author leads to the fault of the note. -/
theorem noteAuthor_resolves :
    twinPorts.Ordered ∧
    portSchema.transform .topDown (fun _ _ x => .ok x) twinPorts = (.ok twinPorts : Except Fault Value) ∧
    noteAuthor ∈ portSchema.visits .topDown twinPorts ∧
    (∃ x, twinPorts.atPath noteAuthor.path = .ok x ∧ x.same (.string "a") = true) ∧
    portSchema.nodeAt noteAuthor.path = .error (.notInSchema .root "note") := by
  have hshape : portSchema.transform .topDown (fun _ _ x => .ok x) twinPorts =
      (.ok twinPorts : Except Fault Value) := rfl
  have hauthor : (portSchema.visits .topDown twinPorts)[2]? = some noteAuthor := rfl
  have hnote : (portSchema.visits .topDown twinPorts)[1]? = some
      ⟨Path.root.field "note", .error (.notInSchema .root "note"), .map [("by", .string "a")]⟩ := rfl
  have hmem := List.mem_of_getElem? hauthor
  obtain ⟨hvalue, _, hfault⟩ := visits_resolve portSchema ordered_twinPorts hshape hmem
  refine ⟨ordered_twinPorts, hshape, hmem, hvalue, ?_⟩
  rcases hfault _ rfl with ⟨parent, name, hname, _⟩ | ⟨_, habove, _⟩
  · cases hname
  · exact habove _ (List.mem_of_getElem? hnote) ⟨[.key "by"], nofun, rfl⟩ .root "note" rfl

end ProviderKit
