import ProviderKit.Proofs.Plan.Keeping
import ProviderKit.Proofs.Plan.Marking

-- Marking a plan a second time. Main statement: that changes nothing unless marking changed an
-- element of a set. The elements of a set are found by their values, so the configuration, which
-- has the element as it was, does not have it any more, and what is configured inside the element
-- counts as left out.

namespace ProviderKit

variable {β : Type}

/-! ## What a second marking changes -/

/-- Somewhere in the value something is met that is not left alone where nothing is configured: it
is left to the provider and not unknown yet, or its name is not in the schema. -/
inductive Position.HoldsMarkable : Position β → Value → Prop
  | here {position v} : position.isLeftToProvider = true → v ≠ .unknown → HoldsMarkable position v
  | undeclared {v} : HoldsMarkable .undeclared v
  | part {position v b x c} : v.part? b = some x → Position.child? position x b = some c →
      HoldsMarkable c.position x → HoldsMarkable position v

/-- Beside a configured value, a plan and the same plan after marking: the configured set has an
element as it was, but not as it is now, and something inside it is met that is not left alone
where nothing is configured. -/
inductive Position.ForgetsElement : Position β → Value → Value → Value → Prop
  | here {position config v w b x y c z} : v.part? b = some x → w.part? b = some y →
      Position.child? position x b = some c → c.step = .element x →
      config.step? (.element x) = some z → config.step? (.element y) = none →
      HoldsMarkable c.position y → ForgetsElement position config v w
  | part {position config v w b x y c z} : v.part? b = some x → w.part? b = some y →
      Position.child? position x b = some c → Position.child? position y b = some c →
      config.step? c.step = some z → ForgetsElement c.position z x y →
      ForgetsElement position config v w

section

variable {config : Value} {path : Path} {position : Position β} {v w : Value}

/-! ## Visiting again -/

theorem ne_undeclared_of_unknownAt (hroot : path.isRoot = false)
    (hconfig : config.configures path = false)
    (h : unknownAt config path (position.node path) v = .ok w) : position ≠ .undeclared := by
  rintro rfl
  unfold unknownAt at h
  rw [hroot, hconfig] at h
  cases h

/-- What is not left to the provider, or is unknown already, is left as it is. -/
theorem unknownAt_self (hp : position ≠ .undeclared)
    (hleft : position.isLeftToProvider = true → v = .unknown) :
    unknownAt config path (position.node path) v = .ok v := by
  unfold unknownAt
  split
  · rfl
  split
  · rfl
  cases position with
  | described n =>
    cases n with
    | attr a =>
      simp only [Position.node, Except.ok.injEq, ite_eq_right_iff]
      exact fun ha => (hleft ha).symm
    | _ => rfl
  | atomic type => rfl
  | undeclared => exact absurd rfl hp

/-- What was marked at a path is left as it is at that path. -/
theorem Rebuilds.unknownAt_again (h : Rebuilds (unknownAt config) path position v w) :
    unknownAt config path (position.node path) w = .ok w := by
  cases hroot : path.isRoot with
  | true =>
    unfold unknownAt
    rw [if_pos hroot]
  | false =>
    cases hconfig : config.configures path with
    | true => exact unknownAt_of_configures hconfig
    | false =>
      refine unknownAt_self ?_ (fun hleft => ?_)
      · obtain ⟨u, hu, _⟩ := h
        exact ne_undeclared_of_unknownAt hroot hconfig hu
      · rcases h.unknown_or_below with ⟨_, hw⟩ | ⟨hnot, _⟩
        · exact hw
        · exact absurd ⟨hroot, hconfig, hleft⟩ hnot

/-- A walk over what was marked leaves it as it is below, if it does so at every place right
below. -/
theorem Rebuilds.again_below {visit : Visit β (Except Fault)} {path' : Path}
    (h : Rebuilds (unknownAt config) path position v w) (hw : w.Ordered)
    (hparts : ∀ b x y c, v.part? b = some x → w.part? b = some y →
      position.child? x b = some c → Rebuilds (unknownAt config) (path.push c.step) c.position x y →
      ∃ d, position.child? y b = some d ∧
        Rebuilds visit (path'.push d.step) d.position y y) :
    RebuildsBelow visit path' position w w := by
  rcases h.unknown_or_below with ⟨_, rfl⟩ | ⟨_, hbelow⟩
  · exact (rebuildsBelow_atom_iff rfl).mpr ⟨rfl, fun h => by cases h⟩
  · refine hbelow.again hw (fun b y hy => ?_)
    have hrel := hbelow.part? b
    rw [hy] at hrel
    obtain ⟨x, hx, c, hc, hr⟩ := exists_of_rel_some_right hrel
    exact hparts b x y c hx hy hc hr

/-! ## Where the configuration is out of reach -/

/-- Nothing that was marked where the configuration is out of reach would be marked there again. -/
theorem Position.HoldsMarkable.not_rebuilt (h : position.HoldsMarkable w)
    (hp : config.reach? path.steps = none) :
    ¬ Rebuilds (unknownAt config) path position v w := by
  induction h generalizing path v with
  | here hleft hw =>
    rintro ⟨u, hu, hbelow⟩
    rw [eq_of_unknownAt_unreached hp hu, if_pos hleft] at hbelow
    exact hw ((rebuildsBelow_of_atom_iff rfl).mp hbelow).1.symm
  | undeclared =>
    rintro ⟨u, hu, _⟩
    exact ne_undeclared_of_unknownAt (isRoot_of_unreached hp)
      (Value.configures_of_reach?_eq_none hp) hu rfl
  | @part position w b y c hy hc _ ih =>
    intro h
    rcases h.unknown_or_below with ⟨_, rfl⟩ | ⟨_, hbelow⟩
    · cases b <;> cases hy
    · have hrel := hbelow.part? b
      rw [hy] at hrel
      obtain ⟨x, _, d, hd, hr⟩ := exists_of_rel_some_right hrel
      obtain ⟨c', hc', hpos, _⟩ := exists_child?_of_child? hd y
      cases hc.symm.trans hc'
      rw [← hpos] at hr
      exact ih (reach?_push_of_unreached hp d.step) hr

/-- Where nothing can be marked any more, marking changes nothing, wherever it looks. -/
theorem Rebuilds.again_of_not_markable (h : Rebuilds (unknownAt config) path position v w)
    (hw : w.Ordered) (hmark : ¬ position.HoldsMarkable w) (path' : Path) :
    Rebuilds (unknownAt config) path' position w w := by
  induction w using Value.partsInduction generalizing path position v path' with
  | parts w ih =>
    refine ⟨w, unknownAt_self ?_ ?_, h.again_below hw ?_⟩
    · rintro rfl
      exact hmark .undeclared
    · intro hleft
      exact Classical.byContradiction fun hne => hmark (.here hleft hne)
    · intro b x y c hx hy hc hr
      obtain ⟨d, hd, hpos, _⟩ := Position.exists_child?_of_child? hc y
      rw [← hpos] at hr
      exact ⟨d, hd, ih b y hy hr (hw.part hy) (fun hm => hmark (.part hy hd hm)) _⟩

/-! ## Where the configuration has the planned value -/

theorem Found.part {x : Value} {b : Branch} {c : Position.Child β} (h : Found config path v)
    (hx : v.part? b = some x) (hc : position.child? x b = some c) :
    Found config (path.push c.step) x := by
  cases v <;> cases b <;> try cases hx
  · obtain ⟨child, hchild, rfl⟩ := Option.map_eq_some_iff.mp hc
    exact h.item hchild hx
  · obtain ⟨child, hchild, rfl⟩ := Option.map_eq_some_iff.mp hc
    exact h.entry hchild hx

theorem Found.not_configures_null (h : Found config path .null) :
    config.configures path = false := by
  obtain ⟨x, hx, hs⟩ := h
  cases hc : config.configures path with
  | false => rfl
  | true =>
    obtain ⟨y, hy, hn⟩ := (Value.configures_iff config path).mp hc
    cases hx.symm.trans hy
    rw [Value.isNull_eq_of_same hs] at hn
    cases hn

/-- Where the configuration has the value before marking, and elsewhere the value after marking,
marking the latter there changes nothing. -/
theorem Rebuilds.again_of_found (h : Rebuilds (unknownAt config) path position v w)
    (hw : w.Ordered) (hroot : path.isRoot = false) (hv : Found config path v) {path' : Path}
    (hfound : Found config path' w) : Rebuilds (unknownAt config) path' position w w := by
  induction w using Value.partsInduction generalizing path position v path' with
  | parts w ih =>
    refine ⟨w, ?_, h.again_below hw ?_⟩
    · cases hn : w.isNull with
      | false => exact unknownAt_of_configures (hfound.configures hn)
      | true =>
        -- A null value was null before, where it was not configured either.
        rcases h.unknown_or_below with ⟨_, rfl⟩ | ⟨hnot, hbelow⟩
        · cases hn
        · obtain rfl := Value.eq_null_of_isNull hn
          obtain ⟨rfl, _⟩ := (rebuildsBelow_atom_iff rfl).mp hbelow
          have hconfig := hv.not_configures_null
          obtain ⟨u, hu, _⟩ := h
          refine unknownAt_self (ne_undeclared_of_unknownAt hroot hconfig hu) (fun hleft => ?_)
          exact absurd ⟨hroot, hconfig, hleft⟩ hnot
    · intro b x y c hx hy hc hr
      obtain ⟨d, hd, hpos, _⟩ := Position.exists_child?_of_child? hc y
      rw [← hpos] at hr
      refine ⟨d, hd, ih b y hy hr (hw.part hy) ?_ (hv.part hx hc) (hfound.part hy hd)⟩
      simp [Path.isRoot]

/-! ## Where the configuration is reached -/

theorem reach?_push_of_reached {c : Value} (hp : config.reach? path.steps = some c) (s : Step) :
    config.reach? (path.push s).steps = c.step? s := by
  rw [Value.reach?_push, hp]
  rfl

/-- What a second marking leaves as it is, it leaves as it is at every place right below. -/
theorem Rebuilds.part_again (h : Rebuilds (unknownAt config) path position w w) {b : Branch}
    {y : Value} (hy : w.part? b = some y) : ∃ d, position.child? y b = some d ∧
      Rebuilds (unknownAt config) (path.push d.step) d.position y y := by
  rcases h.unknown_or_below with ⟨_, rfl⟩ | ⟨_, hbelow⟩
  · cases b <;> cases hy
  · have hrel := hbelow.part? b
    rw [hy] at hrel
    cases hrel with
    | some hr => exact hr

/-- A forgotten element is marked again. -/
theorem Position.ForgetsElement.not_again {c : Value} (h : position.ForgetsElement c v w)
    (hp : config.reach? path.steps = some c) :
    ¬ Rebuilds (unknownAt config) path position w w := by
  induction h generalizing path with
  | @here position configured v w b x y c z hx hy hc hs hold hnew hmark =>
    intro h
    obtain ⟨d, hd, hr⟩ := h.part_again hy
    obtain ⟨d', hd', hpos, hstep⟩ := exists_child?_of_child? hc y
    cases hd.symm.trans hd'
    have hdstep : d.step = .element y := by
      rcases hstep with rfl | ⟨_, hdstep⟩
      · have hnames := names_of_child? hd
        rw [hs] at hnames ⊢
        cases hnames
        rfl
      · exact hdstep
    rw [← hpos] at hmark
    rw [hdstep] at hr
    exact hmark.not_rebuilt ((reach?_push_of_reached hp _).trans hnew) hr
  | @part position configured v w b x y c z hx hy hc hc' hz _ ih =>
    intro h
    obtain ⟨d, hd, hr⟩ := h.part_again hy
    cases hd.symm.trans hc'
    exact ih ((reach?_push_of_reached hp _).trans hz) hr

theorem Value.same_of_step?_element {v x z : Value} (h : v.step? (.element x) = some z) :
    z.same x = true := by
  cases v
  case list xs => exact List.find?_some (p := fun item : Value => item.same x) h
  all_goals cases h

/-- An element of a set that is not forgotten is not marked again. -/
theorem Rebuilds.again_of_element {x y configured : Value}
    (h : Rebuilds (unknownAt config) (path.push (.element x)) position x y)
    (hp : config.reach? path.steps = some configured) (hy : y.Ordered)
    (hkept : ∀ z, configured.step? (.element x) = some z →
      configured.step? (.element y) = none → ¬ position.HoldsMarkable y) :
    Rebuilds (unknownAt config) (path.push (.element y)) position y y := by
  have hreach := reach?_push_of_reached hp
  cases hx : configured.step? (.element x) with
  | none =>
    have hmark := fun hm : position.HoldsMarkable y =>
      hm.not_rebuilt ((hreach (.element x)).trans hx) h
    exact h.again_of_not_markable hy hmark _
  | some z =>
    cases hy' : configured.step? (.element y) with
    | none => exact h.again_of_not_markable hy (hkept z hx hy') _
    | some z' =>
      refine h.again_of_found hy (by simp [Path.isRoot]) ?_ ?_
      · exact ⟨z, (hreach _).trans hx, Value.same_of_step?_element hx⟩
      · exact ⟨z', (hreach _).trans hy', Value.same_of_step?_element hy'⟩

/-- Where no element is forgotten, marking again changes nothing. -/
theorem Rebuilds.again_of_not_forgets {c : Value} (h : Rebuilds (unknownAt config) path position v w)
    (hp : config.reach? path.steps = some c) (hw : w.Ordered)
    (hforgets : ¬ position.ForgetsElement c v w) :
    Rebuilds (unknownAt config) path position w w := by
  induction w using Value.partsInduction generalizing path position v c with
  | parts w ih =>
    refine ⟨w, h.unknownAt_again, h.again_below hw ?_⟩
    intro b x y e hx hy he hr
    obtain ⟨d, hd, hpos, hstep⟩ := Position.exists_child?_of_child? he y
    refine ⟨d, hd, ?_⟩
    rcases hstep with rfl | ⟨hestep, hdstep⟩
    · cases hz : c.step? d.step with
      | some z =>
        exact ih b y hy hr ((reach?_push_of_reached hp _).trans hz) (hw.part hy)
          (fun hf => hforgets (.part hx hy he hd hz hf))
      | none =>
        have hunreached := (reach?_push_of_reached hp d.step).trans hz
        exact hr.again_of_not_markable (hw.part hy) (fun hm => hm.not_rebuilt hunreached hr) _
    · rw [hdstep, hpos]
      rw [hestep] at hr
      refine hr.again_of_element hp (hw.part hy) (fun z hz hnone hm => ?_)
      exact hforgets (.here hx hy he hestep hz hnone hm)

/-! ## Filling out again -/

/-- Where nothing was made unknown itself, every name has an entry still. -/
theorem RebuildsBelow.fillNode_eq {visit : Visit β (Except Fault)} {path' : Path}
    (hv : Rebuilds filling path' position v v) (h : RebuildsBelow visit path position v w) :
    fillNode (position.node path') w = w := by
  cases w
  case map fs =>
    obtain ⟨es, child, rfl, _, hentries⟩ := rebuildsBelow_map_iff.mp h
    cases position with
    | described n =>
      obtain ⟨hnames, _⟩ := rebuilds_filling_self_iff.mp hv
      rw [Position.node, fillNode_map, fillNames_of_present]
      intro name hname
      obtain ⟨x, hx⟩ := hnames name hname
      have hrel := hentries.get? name
      rw [hx] at hrel
      obtain ⟨y, hy, _⟩ := exists_of_rel_some_left hrel
      exact ⟨y, hy⟩
    | atomic type => exact fillNode_of_error _ _
    | undeclared => exact fillNode_of_error _ _
  all_goals exact fillNode_of_not_map _ rfl

/-- What is filled out is filled out at every place right below. -/
theorem Rebuilds.filled_part {path' : Path} (hv : Rebuilds filling path' position v v) {b : Branch}
    {x : Value} (hx : v.part? b = some x) : ∃ c, position.child? x b = some c ∧
      Rebuilds filling (path'.push c.step) c.position x x := by
  have hfill := fillNode_of_rebuilds hv path'
  obtain ⟨u, hu, hbelow⟩ := hv
  rw [filling, hfill] at hu
  cases hu
  have hrel := hbelow.part? b
  rw [hx] at hrel
  cases hrel with
  | some hr => exact hr

/-- What was filled out stays filled out when it is marked. -/
theorem Rebuilds.filled_of_unknownAt {path' : Path} (hv : Rebuilds filling path' position v v)
    (h : Rebuilds (unknownAt config) path position v w) (hw : w.Ordered) :
    Rebuilds filling path' position w w := by
  induction w using Value.partsInduction generalizing path position v path' with
  | parts w ih =>
    rcases h.unknown_or_below with ⟨_, rfl⟩ | ⟨_, hbelow⟩
    · exact ⟨.unknown, congrArg Except.ok (fillNode_of_atom _ rfl),
        (rebuildsBelow_atom_iff rfl).mpr ⟨rfl, fun h => by cases h⟩⟩
    · refine ⟨w, congrArg Except.ok (hbelow.fillNode_eq hv), h.again_below hw ?_⟩
      intro b x y c hx hy hc hr
      obtain ⟨c', hc', hxx⟩ := hv.filled_part hx
      cases hc.symm.trans hc'
      obtain ⟨d, hd, hpos, _⟩ := Position.exists_child?_of_child? hc y
      refine ⟨d, hd, ?_⟩
      rw [hpos]
      exact (ih b y hy hxx hr (hw.part hy)).filled_again _

end

/-! ## Schemas without sets -/

/-- No objects are nested in sets. -/
def Schema.HasNoSets (s : Schema β) : Prop :=
  ∀ steps n m, (Node.block s.root).Reaches steps n → n.view ≠ .set m

namespace Position

/-- Nothing is marked inside an atomic attribute. -/
theorem not_holdsMarkable_atomic {type : Option AttributeType} {v : Value} :
    ¬ (atomic type : Position β).HoldsMarkable v := by
  intro h
  generalize hp : (atomic type : Position β) = position at h
  induction h generalizing type with
  | here hleft _ =>
    subst hp
    cases hleft
  | undeclared => cases hp
  | @part _ _ b x c _ hc _ ih =>
    subst hp
    obtain ⟨t, ht⟩ := exists_atomic_of_child? hc nofun
    exact ih ht.symm

/-- What is named as an element stands in a set of the schema, or nothing in it is marked. -/
theorem HoldsMarkable.exists_set {position : Position β} {b : Branch} {x y : Value} {c : Child β}
    (h : c.position.HoldsMarkable y) (hc : position.child? x b = some c)
    (hs : c.step = .element x) : ∃ n m, position = .described n ∧ n.view = .set m := by
  have hatomic : ∀ type i, c ≠ itemChild.atomicItem type i x := by
    rintro type i rfl
    obtain ⟨t, ht⟩ := exists_atomicItem_position (β := β) type i x
    rw [ht] at h
    exact not_holdsMarkable_atomic h
  cases b with
  | entry k =>
    have hnames := names_of_child? hc
    rw [hs] at hnames
    cases hnames
  | item i =>
    cases position with
    | described n =>
      refine ⟨n, ?_⟩
      simp only [child?, itemChild] at hc
      cases hv : n.view <;> simp only [hv, Option.map_some, Option.map_none, reduceCtorEq,
        Option.some.injEq] at hc
      · subst hc
        cases hs
      · exact ⟨_, rfl, rfl⟩
      · exact absurd hc.symm (hatomic _ i)
    | atomic type => exact absurd (Option.some.inj hc).symm (hatomic type i)
    | undeclared => exact absurd (Option.some.inj hc).symm (hatomic none i)

/-- Elements are forgotten in sets of the schema only. -/
theorem ForgetsElement.exists_set {position : Position β} {config v w : Value}
    (h : position.ForgetsElement config v w) :
    ∃ n, position = .described n ∧ ∃ steps m e, n.Reaches steps m ∧ m.view = .set e := by
  induction h with
  | here _ _ hc hs _ _ hmark =>
    obtain ⟨n, m, rfl, hv⟩ := hmark.exists_set hc hs
    exact ⟨n, rfl, [], n, m, rfl, hv⟩
  | part _ _ hc _ _ _ ih =>
    obtain ⟨m, hm, steps, k, e, hreaches, hv⟩ := ih
    obtain ⟨n, rfl, hleads⟩ := leads_of_child? hc hm
    exact ⟨n, rfl, _ :: steps, k, e, ⟨m, hleads, hreaches⟩, hv⟩

end Position

/-! ## The stage as a whole -/

/-- Marking a plan that was marked already changes nothing exactly if no element of a set is
forgotten, so in particular if no objects are nested in sets. -/
theorem markUnknowns_again_iff {s : Schema β} {config plan marked : Value} (hplan : plan.Ordered)
    (h : s.markUnknowns config plan = .ok marked) :
    ∃ filled, s.fillAbsent plan = .ok filled ∧
      (s.markUnknowns config marked = .ok marked ↔
        ¬ (Position.described (.block s.root)).ForgetsElement config filled marked) ∧
      (s.HasNoSets → s.markUnknowns config marked = .ok marked) := by
  obtain ⟨filled, hf, hwalk⟩ := markUnknowns_eq_ok_iff.mp h
  have hmarked : marked.Ordered := ordered_of_unknownAt hwalk (ordered_of_fillAbsent hplan hf)
  have hroot : config.reach? Path.root.steps = some config := rfl
  have hfilled : s.fillAbsent marked = .ok marked := by
    have hagain := fillAbsent_eq_ok_iff.mp (fillAbsent_idempotent hf)
    exact fillAbsent_eq_ok_iff.mpr (hagain.filled_of_unknownAt hwalk hmarked)
  have hkept : ¬ (Position.described (.block s.root)).ForgetsElement config filled marked →
      s.markUnknowns config marked = .ok marked := fun hforgets =>
    markUnknowns_eq_ok_iff.mpr ⟨marked, hfilled, hwalk.again_of_not_forgets hroot hmarked hforgets⟩
  refine ⟨filled, hf, ⟨fun hagain hforgets => ?_, hkept⟩, fun hsets => hkept fun hforgets => ?_⟩
  · obtain ⟨filled', hf', hagain⟩ := markUnknowns_eq_ok_iff.mp hagain
    cases hfilled.symm.trans hf'
    exact hforgets.not_again hroot hagain
  · obtain ⟨n, hn, steps, m, e, hreaches, hv⟩ := hforgets.exists_set
    cases hn
    exact hsets steps m e hreaches hv

theorem ordered_webRule : (webRule .null).Ordered := by
  refine Value.ordered_entry.mpr (.list (fun x hx => ?_))
  rw [List.mem_singleton.mp hx]
  exact Value.ordered_of_keys (show ["id", "name"].Pairwise (· < ·) by decide) (by simp)

theorem markUnknowns_webRule_again_iff :
    (webRule .null).Ordered ∧
    numberedRules.markUnknowns (webRule .null) (webRule .null) = .ok (webRule .unknown) ∧
    ∃ filled, numberedRules.fillAbsent (webRule .null) = .ok filled ∧
      (numberedRules.markUnknowns (webRule .null) (webRule .unknown) = .ok (webRule .unknown) ↔
        ¬ (Position.described (.block numberedRules.root)).ForgetsElement (webRule .null) filled
          (webRule .unknown)) ∧
      (numberedRules.HasNoSets →
        numberedRules.markUnknowns (webRule .null) (webRule .unknown) = .ok (webRule .unknown)) :=
  ⟨ordered_webRule, rfl, markUnknowns_again_iff ordered_webRule rfl⟩

/-- The id that is not known yet takes the name of the rule with it. -/
theorem markUnknowns_forgets_name :
    numberedRules.markUnknowns (webRule .null) (webRule .null) = .ok (webRule .unknown) ∧
    numberedRules.markUnknowns (webRule .null) (webRule .unknown) =
      .ok (.map [("rules", .list [.map [("id", .unknown), ("name", .unknown)]])]) ∧
    numberedRules.markUnknowns (webRule .null) (webRule .unknown) ≠ .ok (webRule .unknown) := by
  have hsecond : numberedRules.markUnknowns (webRule .null) (webRule .unknown) =
      .ok (.map [("rules", .list [.map [("id", .unknown), ("name", .unknown)]])]) := rfl
  refine ⟨rfl, hsecond, ?_⟩
  rw [hsecond]
  simp [webRule]

end ProviderKit
