import ProviderKit.Proofs.Schema.Comparing
import ProviderKit.Proofs.Schema.Completed
import ProviderKit.Proofs.Schema.Every
import ProviderKit.Proofs.Schema.Validated

-- Leaving out a declared name and giving it null are the same to validation: of a value and of the
-- value that it is filled out to, the same severities and summaries are reported, in one order.

namespace ProviderKit

variable {β : Type}

/-! ## Names that are not declared -/

theorem Keyed.filter_keys_insert {α : Type} {p : String → Bool} {k : String} (hk : p k = false)
    (es : Keyed α) (a : α) : (keys (insert es k a)).filter p = (keys es).filter p := by
  have hcons : ∀ (es : Keyed α) (b : α), (keys ((k, b) :: es)).filter p = (keys es).filter p :=
    fun es b => List.filter_cons_of_neg (by simp [hk])
  induction es with
  | nil => exact hcons [] a
  | cons e rest ih =>
    obtain ⟨l, b⟩ := e
    rw [insert]
    split
    · next hl => rw [hcons, hl, hcons]
    · split
      · exact hcons _ a
      · rw [keys, List.map_cons, List.filter_cons, ← keys, ih, keys, keys, List.map_cons,
          List.filter_cons]

theorem filter_keys_fillNames {p : String → Bool} {names : List String}
    (h : ∀ name ∈ names, p name = false) (es : Keyed Value) :
    (Keyed.keys (fillNames names es)).filter p = (Keyed.keys es).filter p := by
  unfold fillNames
  induction names generalizing es with
  | nil => rfl
  | cons name names ih =>
    obtain ⟨hname, hnames⟩ := List.forall_mem_cons.mp h
    rw [List.foldl_cons, ih hnames, Keyed.insertNew]
    split
    · rfl
    · exact Keyed.filter_keys_insert hname es .null

/-- Filling out adds no name that is not declared. -/
theorem undeclared_fillNames (attributes : List (String × Attribute β))
    (blocks : List (String × NestedBlock β)) (es : Keyed Value) :
    undeclared attributes blocks (fillNames (Keyed.keys attributes ++ Keyed.keys blocks) es) =
      undeclared attributes blocks es := by
  refine filter_keys_fillNames (fun name hname => ?_) es
  rw [Bool.not_eq_false', Bool.or_eq_true, hasKey_iff, hasKey_iff]
  exact List.mem_append.mp hname

/-! ## What is filled out, part by part -/

section

variable {visit : Visit β (Except Fault)} {path : Path}

theorem RebuildsItems.forall₂ {child : Nat → Value → Position.Child β} {i : Nat}
    {xs ys : List Value} (h : RebuildsItems visit path child i xs ys) :
    List.Forall₂ (fun x y => ∃ j,
      Rebuilds visit (path.push (child j x).step) (child j x).position x y) xs ys := by
  induction ys generalizing xs i with
  | nil =>
    rw [rebuildsItems_nil_iff.mp h]
    exact .nil
  | cons y ys ih =>
    obtain ⟨x, rest, rfl, hx, hrest⟩ := rebuildsItems_cons_iff.mp h
    exact .cons ⟨i, hx⟩ (ih hrest)

theorem RebuildsEntries.forall₂ {child : String → Position.Child β} {es fs : Keyed Value}
    (h : RebuildsEntries visit path child es fs) :
    List.Forall₂ (fun e f =>
      Rebuilds visit (path.push (child e.1).step) (child e.1).position e.2 f.2) es fs := by
  induction fs generalizing es with
  | nil =>
    rw [rebuildsEntries_nil_iff.mp h]
    exact .nil
  | cons f fs ih =>
    obtain ⟨k, y⟩ := f
    obtain ⟨x, rest, rfl, hx, hrest⟩ := rebuildsEntries_cons_iff.mp h
    exact .cons hx (ih hrest)

end

/-- There are no nodes below the position. -/
def Position.IsLeaf (position : Position β) : Prop :=
  ∀ n, position = .described n → ∃ type, n.view = .atomic type

theorem Position.exists_atomic_of_demand {n : Node β} (h : (described n).demand = none) :
    ∃ type, n.view = .atomic type := by
  rw [demand] at h
  cases hview : n.view with
  | atomic type => exact ⟨type, rfl⟩
  | object attributes blocks | list m | set m | map m =>
    rw [hview] at h
    cases h

theorem Position.isLeaf_of_atomic {n : Node β} {type : AttributeType}
    (hview : n.view = .atomic type) : (described n).IsLeaf := fun m hm => by
  cases hm
  exact ⟨type, hview⟩

theorem Position.hereditary_isLeaf : Hereditary (IsLeaf (β := β)) := by
  refine ⟨fun hp hc k m hm => ?_, fun hp hc i x m hm => ?_⟩
  · obtain ⟨n, hn, hleads⟩ := leads_of_entryChild hc hm
    obtain ⟨type, hview⟩ := hp n hn
    exact absurd hleads (Node.not_leads_of_atomic hview)
  · obtain ⟨n, hn, hleads⟩ := leads_of_itemChild hc hm
    obtain ⟨type, hview⟩ := hp n hn
    exact absurd hleads (Node.not_leads_of_atomic hview)

theorem Position.IsLeaf.names_eq_nil {position : Position β} (h : position.IsLeaf) :
    position.names = [] := by
  cases position with
  | described n =>
    obtain ⟨type, hview⟩ := h n rfl
    rw [names, Node.names, hview]
  | atomic type | undeclared => rfl

/-- Where there are no nodes, nothing is filled out. -/
theorem Rebuilds.eq_of_filled_leaf {path : Path} {position : Position β} {v f : Value}
    (h : Rebuilds filling path position v f) (hposition : position.IsLeaf) : f = v := by
  refine h.eq_of_unchanged Position.hereditary_isLeaf (fun {path position v u} hp hu => ?_)
    hposition
  cases hu
  cases v
  case map es =>
    rw [position.fillNode_map, hp.names_eq_nil]
    rfl
  all_goals exact fillNode_of_not_map _ rfl

/-! ## The same gists -/

/-- The same severities and summaries in the same order. -/
theorem Diagnostics.comparison_gists : Comparison fun a b => gists a = gists b where
  of_gists h := h
  append hab hcd := by
    rw [gists, List.map_append, ← gists, ← gists, hab, hcd, gists, gists, gists, List.map_append]

open Diagnostics in
theorem Rebuilds.gists_eq_of_atomic {path : Path} {n : Node β} {type : AttributeType} {v f : Value}
    (h : Rebuilds filling path (.described n) v f) (hview : n.view = .atomic type)
    (hv : v.isKnown = true) (p q : Path) : (n.report p v).gists = (n.report q f).gists := by
  rw [h.eq_of_filled_leaf (Position.isLeaf_of_atomic hview)]
  exact comparison_gists.typedReport hview hv hv (comparison_gists.typeReport_self type p q v)

/-- What is left out is filled out with null, of which the same is said. -/
theorem Node.gists_reportAt_of_filled {m : Node β} {path : Path} {x y : Option Value}
    (h : Option.Rel (Rebuilds filling path (.described m)) (x.or (some .null)) y)
    (hpresent : ∀ v f, x = some v → Rebuilds filling path (.described m) v f →
      ∀ p q, (m.report p v).gists = (m.report q f).gists) (p q : Path) :
    (m.reportAt p x).gists = (m.reportAt q y).gists := by
  cases x with
  | none =>
    obtain ⟨f, rfl, hr⟩ := exists_of_rel_some_left h
    rw [hr.eq_of_filled_atom rfl, reportAt, reportAt, report_null]
    exact m.gists_reportUnset p q
  | some v =>
    obtain ⟨f, rfl, hr⟩ := exists_of_rel_some_left h
    exact hpresent v f rfl hr p q

open Diagnostics in
/-- Of a value and of what it is filled out to, the same is said, apart from details and paths. -/
theorem Rebuilds.gists_eq {path : Path} {n : Node β} {v f : Value}
    (h : Rebuilds filling path (.described n) v f) (hn : n.hasDistinctNames = true) (p q : Path) :
    (n.report p v).gists = (n.report q f).gists := by
  induction v using Value.contentsInduction generalizing n path f p q with
  | atom v hv =>
    obtain rfl := h.eq_of_filled_atom hv
    cases hk : f.isKnown with
    | false => exact comparison_gists.unsetReport n p q hk
    | true =>
      obtain ⟨u, hu, hbelow⟩ := id h
      rw [filling, fillNode_of_atom _ hv] at hu
      cases hu
      obtain ⟨type, hview⟩ := Position.exists_atomic_of_demand
        (((rebuildsBelow_of_atom_iff hv).mp hbelow).2 hk)
      exact comparison_gists.typedReport hview hk hk (comparison_gists.typeReport_self type p q f)
  | list xs ih =>
    obtain ⟨u, hu, hbelow⟩ := id h
    rw [filling, fillNode_of_not_map _ rfl] at hu
    cases hu
    obtain ⟨ys, child, rfl, hc, hitems⟩ := rebuildsBelow_of_list_iff.mp hbelow
    have hboth := (List.forall₂_and_left _ _).mpr ⟨ih, hitems.forall₂⟩
    cases hview : n.view with
    | atomic type => exact h.gists_eq_of_atomic hview rfl p q
    | list m =>
      simp only [Position.itemChild, hview, Option.some.injEq] at hc
      subst hc
      refine comparison_gists.listReport hview (hboth.imp fun x y hxy => ?_)
      obtain ⟨ih, j, hr⟩ := hxy
      exact ih hr ((Node.Declares.item j hview).every hn)
    | set m =>
      simp only [Position.itemChild, hview, Option.some.injEq] at hc
      subst hc
      refine comparison_gists.setReport hview (hboth.imp fun x y hxy => ?_)
      obtain ⟨ih, j, hr⟩ := hxy
      exact ih hr ((Node.Declares.element x hview).every hn)
    | object attributes blocks | map m => simp [Position.itemChild, hview] at hc
  | map es ih =>
    obtain ⟨u, hu, hbelow⟩ := id h
    rw [filling, Position.node, fillNode_map] at hu
    cases hu
    obtain ⟨fs, child, rfl, hc, hentries⟩ := rebuildsBelow_of_map_iff.mp hbelow
    cases hview : n.view with
    | atomic type => exact h.gists_eq_of_atomic hview rfl p q
    | map m =>
      simp only [Position.entryChild, hview, Option.some.injEq] at hc
      subst hc
      rw [Node.names, hview] at hentries
      have hboth := (List.forall₂_and_left _ _).mpr ⟨ih, hentries.forall₂⟩
      refine comparison_gists.mapReport hview (hboth.imp fun e f hef => ?_)
      obtain ⟨ih, hr⟩ := hef
      exact ih hr ((Node.Declares.entry e.1 hview).every hn)
    | object attributes blocks =>
      -- Every name that is declared is there after filling out; the others stand as they did.
      have hnames : n.names = Keyed.keys attributes ++ Keyed.keys blocks := by
        rw [Node.names, hview]
      refine comparison_gists.objectReport hview (fun e he p q => ?_) ?_
      · have hdeclares := Node.declares_of_mem_members hview he
        have hchild : child e.1 = ⟨.field e.1, .described e.2⟩ :=
          Position.entryChild_of_leads (hdeclares.leads hn) hc (.inl rfl)
        have hmember := hentries.get? e.1
        rw [get?_fillNames, hnames, if_pos (mem_keys_of_mem_members he), hchild] at hmember
        refine Node.gists_reportAt_of_filled hmember (fun x y hx hr => ?_) p q
        exact ih _ (Keyed.mem_of_get? hx) hr (hdeclares.every hn)
      · rw [undeclared, undeclared, ← hentries.keys_eq, hnames, ← undeclared, ← undeclared,
          undeclared_fillNames]
    | list m | set m => simp [Position.entryChild, hview] at hc

/-- A value and the value that it is filled out to are the same to validation, as far as the
severities and the summaries go. -/
theorem Schema.gists_validate_fillAbsent (s : Schema β) (hnames : s.hasDistinctNames = true)
    {v f : Value} (h : s.fillAbsent v = .ok f) :
    (s.validate v).gists = (s.validate f).gists :=
  (fillAbsent_eq_ok_iff.mp h).gists_eq hnames .root .root

/-- A machine with a disk that has no size, and with rules that have a wrong note and no port. -/
def sparseMachine : Value :=
  .map [("disk", .list [.map [], .unknown]), ("rules", .list [.map [("note", .bool true)]])]

/-- What it is filled out to. -/
def filledMachine : Value :=
  .map [("address", .null), ("disk", .list [.map [("size", .null)], .unknown]),
    ("rules", .list [.map [("note", .bool true), ("port", .null)]]), ("tags", .null)]

theorem gists_sparseMachine :
    machineSchema.hasDistinctNames = true ∧
    machineSchema.fillAbsent sparseMachine = .ok filledMachine ∧
    (machineSchema.validate sparseMachine).gists =
      [(.error, "Incorrect attribute value type"),
        (.error, "Missing Configuration for Required Attribute"),
        (.error, "Missing Configuration for Required Attribute")] ∧
    (machineSchema.validate sparseMachine).gists = (machineSchema.validate filledMachine).gists :=
  ⟨by decide, rfl, rfl, machineSchema.gists_validate_fillAbsent (by decide) rfl⟩

end ProviderKit
