import ProviderKit.Proofs.Schema.Leads
import ProviderKit.Proofs.Schema.TypeReports
import ProviderKit.Schema.Validate

-- What validation reports, one level of a value at a time. At a node it goes on to what is right
-- inside the value, the members of an object or the items of a collection, and then says something
-- of the value itself. All that it says is an error.

namespace ProviderKit

open Validation

variable {β : Type}

/-! ## What is said at a node -/

namespace Node

/-- What validation reports of a value at a node. -/
def report (n : Node β) (path : Path) (v : Value) : Diagnostics :=
  match n with
  | .block b => b.report path v
  | .nestedBlock b => b.report path (some v)
  | .attr a => a.report path (some v)
  | .nestedObject attributes =>
    reportObject (fun es =>
      reportAttributes attributes path es ++ reportUndeclared (hasKey attributes) path es) path v

/-- What validation reports where the value is null, or where there is none. -/
def reportUnset (n : Node β) (path : Path) : Diagnostics :=
  match n with
  | .attr a => if a.flags.required then [missingAttribute path] else []
  | .nestedBlock b => if 0 < b.minItems then [missingBlock path b.minItems] else []
  | .block _ | .nestedObject _ => []

/-- What validation reports of a node that may have a value. -/
def reportAt (n : Node β) (path : Path) : Option Value → Diagnostics
  | none => n.reportUnset path
  | some v => n.report path v

/-- The provider alone decides the value. -/
def isReadOnly : Node β → Bool
  | .attr a => a.flags.isReadOnly
  | _ => false

/-- What is said of a value that is not of the kind that the node asks for. -/
def mismatch (n : Node β) (path : Path) (v : Value) : Diagnostic :=
  match n with
  | .attr a =>
    match a.nested with
    | none => expectedObject path v
    | some nested =>
      if nested.mode = .single then expectedObject path v
      else wrongType path nested.mode.shape.name v
  | .nestedBlock b =>
    if b.mode = .single then expectedObject path v else expectedBlock path b.mode.shape v
  | .block _ | .nestedObject _ => expectedObject path v

/-- What is said of the number of objects. -/
def reportCount (n : Node β) (path : Path) (v : Value) : Diagnostics :=
  match n with
  | .nestedBlock b =>
    match b.mode.count? v with
    | some count => ProviderKit.reportCount b.minItems b.maxItems path count
    | none => []
  | _ => []

end Node

/-- What an object has a name for, attributes before blocks. -/
def members (attributes : List (String × Attribute β)) (blocks : List (String × NestedBlock β)) :
    List (String × Node β) :=
  attributes.map (fun e => (e.1, .attr e.2)) ++ blocks.map fun e => (e.1, .nestedBlock e.2)

/-- Something right inside a value: the step to it, what the schema has there, and what stands
there, if anything does. -/
structure Content (β : Type) where
  step : Step
  node : Node β
  value? : Option Value

def Content.report (c : Content β) (path : Path) : Diagnostics :=
  c.node.reportAt (path.push c.step) c.value?

namespace View

/-- What validation goes on to, in order; none when the value is not of the kind asked for. -/
def contents? : View β → Value → Option (List (Content β))
  | .object attributes blocks, .map es =>
    some ((members attributes blocks).map fun e => ⟨.field e.1, e.2, Keyed.get? es e.1⟩)
  | .list m, .list xs => some (xs.zipIdx.map fun e => ⟨.index e.2, m, some e.1⟩)
  | .set m, .list xs => some (xs.map fun x => ⟨.element x, m, some x⟩)
  | .map m, .map es => some (es.map fun e => ⟨.key e.1, m, some e.2⟩)
  | .atomic _, _ => some []
  | _, _ => none

/-- What is said of a value of the kind asked for: the names that are not declared, or what is wrong
with it as a value of a type. -/
def reportHere : View β → Path → Value → Diagnostics
  | .object attributes blocks, path, .map es =>
    reportUndeclared (fun name => hasKey attributes name || hasKey blocks name) path es
  | .atomic type, path, v => type.report path v
  | _, _, _ => []

/-- All that is said of a value of the kind asked for, and of what is inside. -/
def report? (view : View β) (path : Path) (v : Value) : Option Diagnostics :=
  (view.contents? v).map fun contents =>
    contents.flatMap (·.report path) ++ view.reportHere path v

/-- What validation goes on to stands inside the value. -/
theorem encloses_of_contents? {view : View β} {v x : Value} {contents : List (Content β)}
    (h : view.contents? v = some contents) {c : Content β} (hc : c ∈ contents)
    (hx : c.value? = some x) : v.Encloses x := by
  cases view <;> cases v <;> cases h
  case object.map attributes blocks es =>
    obtain ⟨e, _, rfl⟩ := List.mem_map.mp hc
    exact .entry (Keyed.mem_of_get? hx)
  case list.list m xs =>
    obtain ⟨e, he, rfl⟩ := List.mem_map.mp hc
    cases hx
    exact .item (List.mem_of_getElem? (List.mem_zipIdx_iff_getElem?.mp he))
  case set.list m xs =>
    obtain ⟨y, hy, rfl⟩ := List.mem_map.mp hc
    cases hx
    exact .item hy
  case map.map m es =>
    obtain ⟨e, he, rfl⟩ := List.mem_map.mp hc
    cases hx
    exact .entry he
  all_goals cases hc

end View

theorem mem_members_of_member? {attributes : List (String × Attribute β)}
    {blocks : List (String × NestedBlock β)} {name : String} {m : Node β}
    (h : Node.member? attributes blocks name = some m) : (name, m) ∈ members attributes blocks := by
  unfold Node.member? at h
  cases ha : Keyed.get? attributes name with
  | some a =>
    rw [ha] at h
    cases h
    exact List.mem_append_left _ (List.mem_map_of_mem (Keyed.mem_of_get? ha))
  | none =>
    rw [ha] at h
    obtain ⟨b, hb, rfl⟩ := Option.map_eq_some_iff.mp h
    exact List.mem_append_right _ (List.mem_map_of_mem (Keyed.mem_of_get? hb))

theorem mem_keys_of_mem_members {attributes : List (String × Attribute β)}
    {blocks : List (String × NestedBlock β)} {e : String × Node β}
    (h : e ∈ members attributes blocks) : e.1 ∈ Keyed.keys attributes ++ Keyed.keys blocks := by
  rw [List.mem_append]
  rcases List.mem_append.mp h with h | h
  · obtain ⟨f, hf, rfl⟩ := List.mem_map.mp h
    exact .inl (List.mem_map_of_mem hf)
  · obtain ⟨f, hf, rfl⟩ := List.mem_map.mp h
    exact .inr (List.mem_map_of_mem hf)

theorem Node.declares_of_mem_members {n : Node β} {attributes : List (String × Attribute β)}
    {blocks : List (String × NestedBlock β)} (hview : n.view = .object attributes blocks)
    {e : String × Node β} (h : e ∈ members attributes blocks) : n.Declares (.field e.1) e.2 := by
  rcases List.mem_append.mp h with h | h
  · obtain ⟨f, hf, rfl⟩ := List.mem_map.mp h
    exact .attr hview hf
  · obtain ⟨f, hf, rfl⟩ := List.mem_map.mp h
    exact .block hview hf

/-! ## Attributes that are known -/

section

variable {a : Attribute β} {path : Path} {v : Value}

theorem Attribute.report_of_isReadOnly (ha : a.flags.isReadOnly = true) (hv : v.isKnown = true) :
    a.report path (some v) = [readOnlyAttribute path] := by
  obtain ⟨type, flags, description, nested, default, behaviour⟩ := a
  cases v
  case null | unknown => cases hv
  all_goals
    unfold Attribute.report
    exact if_pos ha

/-- What is configured is checked as the objects nested in the attribute, or as its type. -/
theorem Attribute.report_of_not_isReadOnly (ha : a.flags.isReadOnly = false)
    (hv : v.isKnown = true) :
    a.report path (some v) =
      match a.nested with
      | none => a.type.report path v
      | some nested =>
        (nested.mode.report? (Node.nestedObject nested.attributes).report path v).getD
          [wrongType path nested.mode.shape.name v] := by
  obtain ⟨type, flags, description, _ | ⟨mode, attributes⟩, default, behaviour⟩ := a
  all_goals
    have hflags : ¬ flags.isReadOnly = true := by
      rw [show flags.isReadOnly = false from ha]
      exact Bool.false_ne_true
    cases v
    case null | unknown => cases hv
    all_goals
      unfold Attribute.report
      exact if_neg hflags

end

/-! ## The loops -/

section

variable {attributes : List (String × Attribute β)} {blocks : List (String × NestedBlock β)}
  {path : Path} {es : Keyed Value}

theorem Attribute.report_eq_reportAt (a : Attribute β) (path : Path) (v : Option Value) :
    a.report path v = (Node.attr a).reportAt path v := by
  cases v with
  | none =>
    cases a
    unfold Attribute.report
    rfl
  | some v => rfl

theorem NestedBlock.report_eq_reportAt (b : NestedBlock β) (path : Path) (v : Option Value) :
    b.report path v = (Node.nestedBlock b).reportAt path v := by
  cases v with
  | none =>
    cases b
    unfold NestedBlock.report
    rfl
  | some v => rfl

theorem reportAttributes_eq : reportAttributes attributes path es = attributes.flatMap fun e =>
    (Node.attr e.2).reportAt (path.field e.1) (Keyed.get? es e.1) := by
  induction attributes with
  | nil => rfl
  | cons e rest ih => rw [reportAttributes, ih, List.flatMap_cons, Attribute.report_eq_reportAt]

theorem reportBlocks_eq : reportBlocks blocks path es = blocks.flatMap fun e =>
    (Node.nestedBlock e.2).reportAt (path.field e.1) (Keyed.get? es e.1) := by
  induction blocks with
  | nil => rfl
  | cons e rest ih => rw [reportBlocks, ih, List.flatMap_cons, NestedBlock.report_eq_reportAt]

theorem report_members_eq (blocks : List (String × NestedBlock β)) :
    reportAttributes attributes path es ++ reportBlocks blocks path es =
      ((members attributes blocks).map fun e =>
        (⟨.field e.1, e.2, Keyed.get? es e.1⟩ : Content β)).flatMap (·.report path) := by
  rw [reportAttributes_eq, reportBlocks_eq, members, List.map_append, List.flatMap_append,
    List.map_map, List.map_map, List.flatMap_map, List.flatMap_map]
  rfl

end

/-! ## Objects and collections -/

section

variable {attributes : List (String × Attribute β)} {blocks : List (String × NestedBlock β)}
  {path : Path} {v : Value}

theorem reportObject_eq (hv : v.isKnown = true) :
    reportObject (fun es => reportAttributes attributes path es ++ reportBlocks blocks path es
      ++ reportUndeclared (fun name => hasKey attributes name || hasKey blocks name) path es) path v
      = ((View.object attributes blocks).report? path v).getD [expectedObject path v] := by
  cases v
  case map es =>
    rw [reportObject, report_members_eq]
    rfl
  case null | unknown => cases hv
  all_goals rfl

theorem Block.report_eq (b : Block β) (hv : v.isKnown = true) :
    b.report path v =
      ((View.object b.attributes b.blocks).report? path v).getD [expectedObject path v] := by
  obtain ⟨attributes, blocks, description⟩ := b
  exact reportObject_eq hv

theorem report_nestedObject_eq (hv : v.isKnown = true) :
    (Node.nestedObject attributes).report path v =
      ((View.object attributes []).report? path v).getD [expectedObject path v] := by
  have hdeclared : (fun name => hasKey attributes name || hasKey ([] : Keyed (NestedBlock β)) name)
      = hasKey attributes := by
    funext name
    exact Bool.or_false _
  rw [← reportObject_eq hv, hdeclared]
  simp only [reportBlocks, List.append_nil]
  rfl

theorem report?_collected {mode : NestingMode} (hmode : mode ≠ .single) (m : Node β) :
    mode.report? m.report path v = (Node.collected mode attributes blocks m).report? path v := by
  cases mode with
  | single => exact absurd rfl hmode
  | list =>
    cases v
    case list xs =>
      simp only [NestingMode.report?, reportItems_eq, Node.collected, View.report?, View.contents?,
        Option.map_some, List.flatMap_map, View.reportHere, List.append_nil]
      rfl
    all_goals rfl
  | set =>
    cases v
    case list xs =>
      simp only [NestingMode.report?, reportElements, Node.collected, View.report?, View.contents?,
        Option.map_some, List.flatMap_map, View.reportHere, List.append_nil]
      rfl
    all_goals rfl
  | map =>
    cases v
    case map es =>
      simp only [NestingMode.report?, reportEntries, Node.collected, View.report?, View.contents?,
        Option.map_some, List.flatMap_map, View.reportHere, List.append_nil]
      rfl
    all_goals rfl

/-- Objects collected by a mode. Of a value that is no such collection `wrong` is said, unless it
should be a single object. -/
theorem match_report?_eq {mode : NestingMode} {m : Node β}
    (hm : m.report path v =
      ((View.object attributes blocks).report? path v).getD [expectedObject path v])
    (wrong : Diagnostic) {counted : Diagnostics} (hcounted : mode = .single → counted = []) :
    (match mode.report? m.report path v with
      | none => [wrong]
      | some found => found ++ counted) =
      match (Node.collected mode attributes blocks m).report? path v with
      | none => [if mode = .single then expectedObject path v else wrong]
      | some found => found ++ counted := by
  by_cases hmode : mode = .single
  · subst hmode
    rw [hcounted rfl, if_pos rfl]
    simp only [NestingMode.report?, hm, Node.collected]
    cases (View.object attributes blocks).report? path v <;> simp
  · rw [report?_collected hmode, if_neg hmode]

end

/-! ## One level -/

namespace Node

variable {n : Node β} {path : Path} {v : Value}

theorem report_null (n : Node β) (path : Path) : n.report path .null = n.reportUnset path := by
  cases n with
  | block b =>
    cases b
    rfl
  | nestedObject attributes => rfl
  | nestedBlock b =>
    cases b
    rfl
  | attr a =>
    cases a
    unfold report Attribute.report
    rfl

theorem report_unknown (n : Node β) (path : Path) : n.report path .unknown = [] := by
  cases n with
  | block b =>
    cases b
    rfl
  | nestedObject attributes => rfl
  | nestedBlock b =>
    cases b
    rfl
  | attr a =>
    cases a
    unfold report Attribute.report
    rfl

/-- A value that is known must not stand where the provider alone decides, and must be of the kind
that the node asks for. Then validation goes on to what is inside, and in the end says what is wrong
with the value itself and with the number of objects. -/
theorem report_of_isKnown (n : Node β) (path : Path) (hv : v.isKnown = true) :
    n.report path v =
      if n.isReadOnly then [readOnlyAttribute path]
      else
        match n.view.report? path v with
        | none => [n.mismatch path v]
        | some found => found ++ n.reportCount path v := by
  have huncounted : ∀ {found : Option Diagnostics} {d : Diagnostic},
      found.getD [d] = match found with
        | none => [d]
        | some found => found ++ [] := by
    intro found d
    cases found <;> simp
  cases n with
  | block b => exact (b.report_eq hv).trans huncounted
  | nestedObject attributes => exact (report_nestedObject_eq hv).trans huncounted
  | nestedBlock b =>
    obtain ⟨block, mode, minItems, maxItems⟩ := b
    have hreport : (nestedBlock ⟨block, mode, minItems, maxItems⟩).report path v =
        match mode.report? (Node.block block).report path v with
        | none => [expectedBlock path mode.shape v]
        | some found =>
          found ++ (nestedBlock ⟨block, mode, minItems, maxItems⟩).reportCount path v := by
      cases v
      case null | unknown => cases hv
      all_goals rfl
    rw [hreport, match_report?_eq (m := .block block) (block.report_eq hv)]
    · rfl
    · rintro rfl
      rfl
  | attr a =>
    rw [report, isReadOnly]
    cases ha : a.flags.isReadOnly with
    | true => rw [Attribute.report_of_isReadOnly ha hv, if_pos rfl]
    | false =>
      rw [Attribute.report_of_not_isReadOnly ha hv, if_neg Bool.false_ne_true]
      cases hn : a.nested with
      | none =>
        simp only [view, hn, View.report?, View.contents?, View.reportHere, reportCount,
          Option.map_some, List.flatMap_nil, List.nil_append, List.append_nil]
      | some nested =>
        have hobject : (nestedObject nested.attributes).report path v = _ :=
          report_nestedObject_eq hv
        simp only [view, hn, mismatch, reportCount]
        rw [← match_report?_eq hobject (wrongType path nested.mode.shape.name v) fun _ => rfl]
        cases nested.mode.report? (nestedObject nested.attributes).report path v <;> simp

/-- What validation goes on to. -/
def contents (n : Node β) : Option Value → List (Content β)
  | none => []
  | some v => if v.isKnown && !n.isReadOnly then (n.view.contents? v).getD [] else []

/-- What is said at a node of the value itself, whatever is said of what is inside. -/
def remarks (n : Node β) (path : Path) : Option Value → Diagnostics
  | none | some .null => n.reportUnset path
  | some .unknown => []
  | some v =>
    if n.isReadOnly then [readOnlyAttribute path]
    else
      match n.view.contents? v with
      | none => [n.mismatch path v]
      | some _ => n.view.reportHere path v ++ n.reportCount path v

theorem remarks_of_isKnown (n : Node β) (path : Path) (hv : v.isKnown = true) :
    n.remarks path (some v) =
      if n.isReadOnly then [readOnlyAttribute path]
      else
        match n.view.contents? v with
        | none => [n.mismatch path v]
        | some _ => n.view.reportHere path v ++ n.reportCount path v := by
  cases v
  case null | unknown => cases hv
  all_goals rfl

/-- What may be said of a value itself. -/
theorem mem_remarks_cases {v : Option Value} {d : Diagnostic} (h : d ∈ n.remarks path v) :
    d ∈ n.reportUnset path ∨ d = readOnlyAttribute path ∨ ∃ w, v = some w ∧
      (d = n.mismatch path w ∨ d ∈ n.view.reportHere path w ∨ d ∈ n.reportCount path w) := by
  cases v with
  | none => exact .inl h
  | some v =>
    cases hv : v.isKnown with
    | false =>
      rcases Value.eq_null_or_eq_unknown hv with rfl | rfl
      · exact .inl h
      · cases h
    | true =>
      rw [n.remarks_of_isKnown path hv] at h
      split at h
      · exact .inr (.inl (List.mem_singleton.mp h))
      · refine .inr (.inr ⟨v, rfl, ?_⟩)
        split at h
        · exact .inl (List.mem_singleton.mp h)
        · exact .inr (List.mem_append.mp h)

/-- First comes what is said of what is inside, then what is said of the value itself. -/
theorem reportAt_eq (n : Node β) (path : Path) (v : Option Value) :
    n.reportAt path v = (n.contents v).flatMap (·.report path) ++ n.remarks path v := by
  cases v with
  | none => rfl
  | some v =>
    cases hv : v.isKnown with
    | false =>
      rcases Value.eq_null_or_eq_unknown hv with rfl | rfl
      · exact n.report_null path
      · exact n.report_unknown path
    | true =>
      rw [reportAt, n.report_of_isKnown path hv, n.remarks_of_isKnown path hv, contents, hv]
      cases n.isReadOnly with
      | true => rfl
      | false =>
        rw [View.report?]
        cases n.view.contents? v with
        | none => rfl
        | some contents =>
          simp only [Bool.false_eq_true, if_false, Option.map_some, List.append_assoc,
            Bool.not_false, Bool.and_true, if_true, Option.getD_some]

theorem mem_contents_iff {c : Content β} : c ∈ n.contents (some v) ↔ v.isKnown = true ∧
    n.isReadOnly = false ∧ ∃ contents, n.view.contents? v = some contents ∧ c ∈ contents := by
  rw [contents]
  cases v.isKnown <;> cases n.isReadOnly <;> cases n.view.contents? v <;> simp

theorem encloses_of_contents {c : Content β} (hc : c ∈ n.contents (some v)) {x : Value}
    (hx : c.value? = some x) : v.Encloses x := by
  obtain ⟨_, _, contents, hcontents, hc⟩ := mem_contents_iff.mp hc
  exact View.encloses_of_contents? hcontents hc hx

/-- What validation goes on to is declared. -/
theorem declares_of_mem_contents {v : Option Value} {c : Content β} (hc : c ∈ n.contents v) :
    n.Declares c.step c.node := by
  cases v with
  | none => cases hc
  | some v =>
    obtain ⟨_, _, contents, hcontents, hc⟩ := mem_contents_iff.mp hc
    cases hview : n.view <;> rw [hview] at hcontents <;> cases v <;> cases hcontents
    case some.object.map attributes blocks es =>
      obtain ⟨e, he, rfl⟩ := List.mem_map.mp hc
      exact declares_of_mem_members hview he
    case some.list.list m xs =>
      obtain ⟨e, _, rfl⟩ := List.mem_map.mp hc
      exact .item e.2 hview
    case some.set.list m xs =>
      obtain ⟨x, _, rfl⟩ := List.mem_map.mp hc
      exact .element x hview
    case some.map.map m es =>
      obtain ⟨e, _, rfl⟩ := List.mem_map.mp hc
      exact .entry e.1 hview
    all_goals cases hc

/-- Induction over what validation goes on to. -/
@[elab_as_elim]
theorem contentsInduction {motive : Node β → Option Value → Prop} (n : Node β) (v : Option Value)
    (level : ∀ n v, (∀ c ∈ n.contents v, motive c.node c.value?) → motive n v) : motive n v := by
  have hnone : ∀ n, motive n none := fun n => level n none nofun
  cases v with
  | none => exact hnone n
  | some v =>
    induction v using Value.enclosureInduction generalizing n with
    | whole v ih =>
      refine level n (some v) fun c hc => ?_
      cases hx : c.value? with
      | none => exact hnone c.node
      | some x => exact ih x (encloses_of_contents hc hx) c.node

end Node

/-! ## Counting -/

/-- Objects are collected. -/
def View.collects : View β → Bool
  | .list _ | .set _ | .map _ => true
  | .object _ _ | .atomic _ => false

/-- Only what is collected is counted. -/
theorem Node.reportCount_eq_nil {n : Node β} (h : n.view.collects = false) (path : Path)
    (v : Value) : n.reportCount path v = [] := by
  cases n with
  | block b | nestedObject attributes | attr a => rfl
  | nestedBlock b =>
    have hmode : b.mode = .single := by
      rw [view] at h
      cases hmode : b.mode <;> rw [hmode] at h <;> first | rfl | cases h
    rw [reportCount, hmode]
    rfl

/-- Of a collection, only the number is remarked on. -/
theorem View.reportHere_eq_nil {view : View β} (h : view.collects = true) (path : Path)
    (v : Value) : view.reportHere path v = [] := by
  cases view with
  | list m | set m | map m => rfl
  | object attributes blocks | atomic type => cases h

/-- What is said of the number of objects goes by the number in 32 bits. -/
theorem mem_reportCount_iff {minItems maxItems : UInt32} {path : Path} {count : Nat}
    {d : Diagnostic} :
    d ∈ reportCount minItems maxItems path count ↔
      (count % 4294967296 < minItems.toNat ∧
        d = tooFewBlocks path minItems (UInt32.ofNat count)) ∨
      (0 < maxItems.toNat ∧ maxItems.toNat < count % 4294967296 ∧
        d = tooManyBlocks path maxItems (UInt32.ofNat count)) := by
  have hcount : (UInt32.ofNat count).toNat = count % 4294967296 := UInt32.toNat_ofNat'
  have hzero : 0 < maxItems.toNat ↔ 0 < maxItems := by rw [UInt32.lt_iff_toNat_lt]; rfl
  rw [← hcount, ← UInt32.lt_iff_toNat_lt, ← UInt32.lt_iff_toNat_lt, hzero]
  simp only [reportCount, List.mem_append, List.mem_ite_nil_right, List.mem_singleton,
    Bool.and_eq_true, decide_eq_true_eq, and_assoc]

/-! ## What may be said -/

section

variable {n : Node β} {path : Path} {v : Value} {d : Diagnostic}

theorem Node.mismatch_cases (n : Node β) (path : Path) (v : Value) :
    n.mismatch path v = expectedObject path v ∨
      (∃ expected, n.mismatch path v = wrongType path expected v) ∨
      ∃ shape, n.mismatch path v = expectedBlock path shape v := by
  cases n with
  | block b | nestedObject attributes => exact .inl rfl
  | nestedBlock b =>
    by_cases hmode : b.mode = .single
    · exact .inl (if_pos hmode)
    · exact .inr (.inr ⟨b.mode.shape, if_neg hmode⟩)
  | attr a =>
    rw [mismatch]
    cases a.nested with
    | none => exact .inl rfl
    | some nested =>
      by_cases hmode : nested.mode = .single
      · exact .inl (if_pos hmode)
      · exact .inr (.inl ⟨nested.mode.shape.name, if_neg hmode⟩)

theorem Node.mem_reportUnset_cases (h : d ∈ n.reportUnset path) :
    d = missingAttribute path ∨ ∃ minItems, d = missingBlock path minItems := by
  cases n with
  | block b | nestedObject attributes => cases h
  | attr a => exact .inl (List.mem_singleton.mp (List.mem_ite_nil_right.mp h).2)
  | nestedBlock b =>
    exact .inr ⟨b.minItems, List.mem_singleton.mp (List.mem_ite_nil_right.mp h).2⟩

theorem View.mem_reportHere_cases {view : View β} (h : d ∈ view.reportHere path v) :
    (∃ name, d = unsupported path name) ∨
      ∃ inner expected found, d = wrongType inner expected found := by
  cases view with
  | object attributes blocks =>
    cases v
    case map es =>
      obtain ⟨name, _, rfl⟩ := List.mem_map.mp h
      exact .inl ⟨name, rfl⟩
    all_goals cases h
  | atomic type => exact .inr (AttributeType.exists_wrongType_of_mem_report h)
  | list m | set m | map m => cases h

theorem Node.mem_reportCount_cases (h : d ∈ n.reportCount path v) :
    ∃ b count, n = .nestedBlock b ∧ b.mode.count? v = some count ∧
      d ∈ ProviderKit.reportCount b.minItems b.maxItems path count := by
  cases n with
  | nestedBlock b =>
    rw [reportCount] at h
    cases hcount : b.mode.count? v with
    | none =>
      rw [hcount] at h
      cases h
    | some count =>
      rw [hcount] at h
      exact ⟨b, count, rfl, hcount, h⟩
  | block b | nestedObject attributes | attr a => cases h

end

/-! ## Reports without errors -/

section

variable {n : Node β} {path : Path} {v : Value} {d : Diagnostic}

theorem isError_expectedObject (path : Path) (v : Value) :
    (expectedObject path v).isError = true := by
  unfold expectedObject
  split <;> rfl

theorem Node.isError_mismatch (n : Node β) (path : Path) (v : Value) :
    (n.mismatch path v).isError = true := by
  rcases n.mismatch_cases path v with h | ⟨expected, h⟩ | ⟨shape, h⟩ <;> rw [h]
  · exact isError_expectedObject path v
  · rfl
  · rfl

theorem Node.isError_of_mem_reportUnset (h : d ∈ n.reportUnset path) : d.isError = true := by
  rcases mem_reportUnset_cases h with rfl | ⟨minItems, rfl⟩ <;> rfl

theorem View.isError_of_mem_reportHere {view : View β} (h : d ∈ view.reportHere path v) :
    d.isError = true := by
  rcases mem_reportHere_cases h with ⟨name, rfl⟩ | ⟨inner, expected, found, rfl⟩ <;> rfl

theorem Node.isError_of_mem_reportCount (h : d ∈ n.reportCount path v) : d.isError = true := by
  obtain ⟨b, count, rfl, _, h⟩ := mem_reportCount_cases h
  rcases mem_reportCount_iff.mp h with ⟨_, rfl⟩ | ⟨_, _, rfl⟩ <;> rfl

theorem Node.isError_of_mem_remarks {v : Option Value} (h : d ∈ n.remarks path v) :
    d.isError = true := by
  rcases mem_remarks_cases h with h | rfl | ⟨v, _, rfl | h | h⟩
  · exact isError_of_mem_reportUnset h
  · rfl
  · exact n.isError_mismatch path v
  · exact View.isError_of_mem_reportHere h
  · exact isError_of_mem_reportCount h

end

/-- All that validation reports is an error. -/
theorem Node.isError_of_mem_reportAt {n : Node β} {path : Path} {v : Option Value} {d : Diagnostic}
    (h : d ∈ n.reportAt path v) : d.isError = true := by
  induction n, v using Node.contentsInduction generalizing path with
  | level n v ih =>
    rw [n.reportAt_eq, List.mem_append, List.mem_flatMap] at h
    rcases h with ⟨c, hc, hd⟩ | hd
    · exact ih c hc hd
    · exact isError_of_mem_remarks hd

/-- So a report without errors is empty. -/
theorem Node.report_eq_nil_iff {n : Node β} {path : Path} {v : Value} :
    n.report path v = [] ↔ Diagnostics.hasError (n.report path v) = false := by
  rw [Diagnostics.hasError, List.any_eq_false, List.eq_nil_iff_forall_not_mem]
  refine forall_congr' fun d => ⟨fun h hd => absurd hd h, fun h hd => ?_⟩
  exact h hd (isError_of_mem_reportAt (v := some v) hd)

/-- On a value that is known, validation reports no error when it says nothing bad of what is
inside, of the value itself and of the number of objects. -/
theorem Node.hasError_report_eq_false_iff {n : Node β} {path : Path} {v : Value}
    (hv : v.isKnown = true) :
    Diagnostics.hasError (n.report path v) = false ↔
      n.isReadOnly = false ∧ ∃ contents, n.view.contents? v = some contents ∧
        (∀ c ∈ contents, Diagnostics.hasError (c.report path) = false) ∧
        Diagnostics.hasError (n.view.reportHere path v) = false ∧
        Diagnostics.hasError (n.reportCount path v) = false := by
  rw [n.report_of_isKnown path hv, View.report?]
  cases hr : n.isReadOnly with
  | true => simp [Diagnostics.hasError, readOnlyAttribute, Diagnostic.isError, Diagnostic.error,
      Diagnostic.atPath]
  | false =>
    cases hc : n.view.contents? v with
    | none => simp [Diagnostics.hasError, n.isError_mismatch]
    | some contents =>
      simp only [Bool.false_eq_true, if_false, Option.map_some, true_and,
        Diagnostics.hasError_append_eq_false_iff, Diagnostics.hasError_flatMap_eq_false_iff,
        Option.some.injEq, exists_eq_left', and_assoc]

theorem hasKey_iff {α : Type} {entries : Keyed α} {key : String} :
    hasKey entries key = true ↔ key ∈ Keyed.keys entries := by
  constructor
  · intro h
    obtain ⟨a, ha⟩ := Option.isSome_iff_exists.mp h
    exact Keyed.mem_keys_of_get? ha
  · intro h
    obtain ⟨a, ha⟩ := Keyed.exists_get?_of_mem_keys h
    exact Option.isSome_iff_exists.mpr ⟨a, ha⟩

theorem hasError_reportUndeclared_eq_false_iff {declared : String → Bool} {path : Path}
    {es : Keyed Value} :
    Diagnostics.hasError (reportUndeclared declared path es) = false ↔
      ∀ e ∈ es, declared e.1 = true := by
  have hunsupported : ∀ name, (unsupported path name).isError = true := fun _ => rfl
  simp [Diagnostics.hasError, reportUndeclared, Keyed.keys, hunsupported]

end ProviderKit
