import ProviderKit.Proofs.Schema.Checking
import ProviderKit.Proofs.Schema.Resolving
import ProviderKit.Schema.Build

-- Where diagnostics point to. The path of a diagnostic leads to a value, or the diagnostic is about
-- an attribute or a block that is missing: then the path leads to an object up to its last step,
-- and the schema declares the name there that the object lacks.

namespace ProviderKit

open Validation

variable {β : Type}

/-! ## Steps to a value -/

namespace Value

variable {v x y : Value} {b : Branch} {s : Step} {ss ts : List Step}

/-- In the value, steps name a place where this stands. -/
def Shows (v : Value) (steps : List Step) (x : Value) : Prop :=
  ∃ place, v.Spells place steps ∧ v.at? place = some x

theorem Shows.here (v : Value) : v.Shows [] v := ⟨[], rfl, rfl⟩

theorem Shows.below (hy : v.part? b = some y) (hb : y.Names b s) (h : y.Shows ts x) :
    v.Shows (s :: ts) x := by
  obtain ⟨place, hspells, hx⟩ := h
  refine ⟨b :: place, ⟨y, s, ts, hy, hb, hspells, rfl⟩, ?_⟩
  rw [at?, hy]
  exact hx

theorem Shows.append (h : v.Shows ss y) (hx : y.Shows ts x) : v.Shows (ss ++ ts) x := by
  obtain ⟨place, hspells, hy⟩ := h
  induction place generalizing v ss with
  | nil =>
    cases hspells
    cases hy
    exact hx
  | cons b place ih =>
    obtain ⟨z, s, rest, hz, hb, hspells, rfl⟩ := hspells
    rw [at?, hz] at hy
    exact .below hz hb (ih hspells hy)

/-- Such steps lead to what stands there, up to equality: an element of a set may stand behind one
that is equal to it. -/
theorem Shows.atPath (h : v.Shows ss x) : ∃ y, v.atPath ⟨ss⟩ = .ok y ∧ y.same x = true := by
  obtain ⟨place, hspells, hx⟩ := h
  obtain ⟨y, hy, hyx⟩ := reach?_of_spells v.same_self hspells hx
  exact ⟨y, (atPath_eq_ok_iff v y ⟨ss⟩).mpr hy, hyx⟩

/-- An object that stands in a value is found there, up to equality, and lacks what it lacks. -/
theorem Shows.atPath_lacking {es : Keyed Value} {name : String} (h : v.Shows ss (.map es))
    (hlacks : Keyed.get? es name = none) :
    ∃ fs, v.atPath ⟨ss⟩ = .ok (.map fs) ∧ Keyed.get? fs name = none := by
  obtain ⟨y, hy, hsame⟩ := h.atPath
  obtain ⟨fs, rfl, hfs⟩ := exists_map_of_same (same_symm hsame)
  have hrel := get?_same hfs name
  rw [hlacks] at hrel
  refine ⟨fs, hy, ?_⟩
  cases hget : Keyed.get? fs name with
  | none => rfl
  | some x =>
    rw [hget] at hrel
    cases hrel

theorem Ordered.shows (hv : v.Ordered) (h : v.Shows ss x) : x.Ordered := by
  obtain ⟨place, _, hx⟩ := h
  exact hv.at? hx

theorem exists_part?_of_mem {xs : List Value} (hx : x ∈ xs) :
    ∃ b, (Value.list xs).part? b = some x ∧ x.Names b (.element x) := by
  obtain ⟨i, hi⟩ := List.getElem?_of_mem hx
  exact ⟨.item i, hi, .element i⟩

end Value

/-! ## Types -/

namespace AttributeType

variable {type : AttributeType} {path : Path} {v : Value} {d : Diagnostic}

/-- What validation goes on to is named by its step. -/
theorem names_of_parts? (hv : v.Ordered) {parts : List Part} (h : type.parts? v = some parts) :
    ∀ p ∈ parts, ∃ b, v.part? b = some p.value ∧ p.value.Names b p.step := by
  cases v
  case list xs =>
    cases type
    case list element =>
      cases h
      refine List.forall_mem_map.mpr fun e he => ?_
      exact ⟨.item e.2, List.mem_zipIdx_iff_getElem?.mp he, .index e.2⟩
    case set element =>
      cases h
      exact List.forall_mem_map.mpr fun x hx => Value.exists_part?_of_mem hx
    all_goals cases h
    exact nofun
  case map es =>
    cases type
    case map element =>
      cases h
      refine List.forall_mem_map.mpr fun e he => ?_
      exact ⟨.entry e.1, Keyed.get?_of_mem hv.ascending he, .key e.1⟩
    case object fields =>
      cases h
      intro p hp
      obtain ⟨f, _, hf⟩ := List.mem_filterMap.mp hp
      obtain ⟨x, hx, rfl⟩ := Option.map_eq_some_iff.mp hf
      exact ⟨.entry f.1, hx, .field f.1⟩
    all_goals cases h
    exact nofun
  all_goals
    intro p hp
    have hx := encloses_of_parts? h p hp
    cases hx

/-- What is said of a value of a type is said where something stands in it. -/
theorem shows_of_mem_report (hv : v.Ordered) (h : d ∈ type.report path v) :
    ∃ inner x, d.path = some ⟨path.steps ++ inner⟩ ∧ v.Shows inner x := by
  induction v using Value.enclosureInduction generalizing type path with
  | whole v ih =>
    cases hknown : v.isKnown with
    | false =>
      rw [type.report_of_not_isKnown path hknown] at h
      cases h
    | true =>
      rw [type.report_of_isKnown path hknown] at h
      cases hparts : type.parts? v with
      | none =>
        rw [hparts] at h
        rw [List.mem_singleton.mp h]
        refine ⟨[], v, ?_, .here v⟩
        rw [List.append_nil]
        rfl
      | some parts =>
        rw [hparts] at h
        obtain ⟨p, hp, hd⟩ := List.mem_flatMap.mp h
        have hencloses := encloses_of_parts? hparts p hp
        obtain ⟨b, hpart, hnames⟩ := names_of_parts? hv hparts p hp
        obtain ⟨inner, x, hpath, hshows⟩ := ih p.value hencloses (hv.enclosed hencloses) hd
        refine ⟨p.step :: inner, x, ?_, .below hpart hnames hshows⟩
        rw [hpath, Path.push_steps, List.append_assoc]
        rfl

end AttributeType

/-! ## What validation comes to -/

namespace Node

variable {n m : Node β} {v x : Value} {w : Option Value} {steps : List Step}

theorem names_of_mem_contents (hv : v.Ordered) {c : Content β} (hc : c ∈ n.contents (some v))
    (hx : c.value? = some x) : ∃ b, v.part? b = some x ∧ x.Names b c.step := by
  obtain ⟨_, _, contents, hcontents, hc⟩ := mem_contents_iff.mp hc
  cases hview : n.view <;> rw [hview] at hcontents <;> cases v <;> cases hcontents
  case object.map attributes blocks es =>
    obtain ⟨e, _, rfl⟩ := List.mem_map.mp hc
    exact ⟨.entry e.1, hx, .field e.1⟩
  case list.list m xs =>
    obtain ⟨e, he, rfl⟩ := List.mem_map.mp hc
    cases hx
    exact ⟨.item e.2, List.mem_zipIdx_iff_getElem?.mp he, .index e.2⟩
  case set.list m xs =>
    obtain ⟨y, hy, rfl⟩ := List.mem_map.mp hc
    cases hx
    exact Value.exists_part?_of_mem hy
  case map.map m es =>
    obtain ⟨e, he, rfl⟩ := List.mem_map.mp hc
    cases hx
    exact ⟨.entry e.1, Keyed.get?_of_mem hv.ascending he, .key e.1⟩
  all_goals cases hc

/-- Validation goes on to nothing only for a member that an object lacks. -/
theorem lacks_of_mem_contents {c : Content β} (hc : c ∈ n.contents (some v))
    (hx : c.value? = none) : ∃ name es, c.step = .field name ∧ v = .map es ∧
      Keyed.get? es name = none := by
  obtain ⟨_, _, contents, hcontents, hc⟩ := mem_contents_iff.mp hc
  cases hview : n.view <;> rw [hview] at hcontents <;> cases v <;> cases hcontents
  case object.map attributes blocks es =>
    obtain ⟨e, _, rfl⟩ := List.mem_map.mp hc
    exact ⟨e.1, _, rfl, rfl, hx⟩
  case list.list m xs =>
    obtain ⟨e, _, rfl⟩ := List.mem_map.mp hc
    cases hx
  case set.list m xs =>
    obtain ⟨y, _, rfl⟩ := List.mem_map.mp hc
    cases hx
  case map.map m es =>
    obtain ⟨e, _, rfl⟩ := List.mem_map.mp hc
    cases hx
  all_goals cases hc

/-- What validation comes to stands in the value, or it is a member that an object in the value
lacks. -/
theorem Checks.shows (h : n.Checks (some v) steps m w) (hv : v.Ordered) :
    (∃ x, w = some x ∧ v.Shows steps x) ∨
    w = none ∧ ∃ above name es parent, steps = above ++ [.field name] ∧
      v.Shows above (.map es) ∧ Keyed.get? es name = none ∧ n.DeclaresAlong above parent ∧
      parent.Declares (.field name) m := by
  induction steps generalizing n v with
  | nil =>
    obtain ⟨rfl, rfl⟩ := h
    exact .inl ⟨v, rfl, .here v⟩
  | cons s steps ih =>
    obtain ⟨c, hc, rfl, hsteps⟩ := h
    have hdeclares := declares_of_mem_contents hc
    cases hx : c.value? with
    | some y =>
      rw [hx] at hsteps
      obtain ⟨b, hpart, hnames⟩ := names_of_mem_contents hv hc hx
      rcases ih hsteps (hv.part hpart) with ⟨x, rfl, hshows⟩ | ⟨rfl, above, name, es, parent, rfl,
        hshows, hlacks, habove, hlast⟩
      · exact .inl ⟨x, rfl, .below hpart hnames hshows⟩
      · exact .inr ⟨rfl, c.step :: above, name, es, parent, rfl, .below hpart hnames hshows, hlacks,
          ⟨c.node, hdeclares, habove⟩, hlast⟩
    | none =>
      rw [hx] at hsteps
      obtain ⟨name, es, hstep, rfl, hlacks⟩ := lacks_of_mem_contents hc hx
      -- Below nothing, there is nothing to go on to.
      cases steps with
      | cons t steps =>
        obtain ⟨c', hc', _⟩ := hsteps
        cases hc'
      | nil =>
        obtain ⟨rfl, rfl⟩ := hsteps
        rw [hstep] at hdeclares ⊢
        exact .inr ⟨rfl, [], name, es, n, rfl, .here _, hlacks, rfl, hdeclares⟩

end Node

/-! ## What is said there -/

section

variable {n : Node β} {path : Path} {v : Value} {d : Diagnostic}

theorem path_expectedObject (h : path.isRoot = false) (v : Value) :
    (expectedObject path v).path = some path := by
  rw [expectedObject, h]
  rfl

theorem Node.path_of_mem_reportUnset (h : d ∈ n.reportUnset path) : d.path = some path := by
  rcases mem_reportUnset_cases h with rfl | ⟨minItems, rfl⟩ <;> rfl

theorem Node.path_of_mem_reportCount (h : d ∈ n.reportCount path v) : d.path = some path := by
  obtain ⟨b, count, _, _, h⟩ := mem_reportCount_cases h
  rcases mem_reportCount_iff.mp h with ⟨_, rfl⟩ | ⟨_, _, rfl⟩ <;> rfl

theorem Node.path_mismatch (n : Node β) (path : Path) (v : Value) :
    n.mismatch path v = expectedObject path v ∨ (n.mismatch path v).path = some path := by
  rcases n.mismatch_cases path v with h | ⟨expected, h⟩ | ⟨shape, h⟩
  · exact .inl h
  · rw [h]
    exact .inr rfl
  · rw [h]
    exact .inr rfl

/-- A name that is not declared is pointed to itself, and a value of a wrong type inside too. -/
theorem View.shows_of_mem_reportHere {view : View β} (hv : v.Ordered)
    (h : d ∈ view.reportHere path v) :
    ∃ inner x, d.path = some ⟨path.steps ++ inner⟩ ∧ v.Shows inner x := by
  cases view with
  | object attributes blocks =>
    cases v
    case map es =>
      obtain ⟨name, hname, rfl⟩ := List.mem_map.mp h
      obtain ⟨x, hx⟩ := Keyed.exists_get?_of_mem_keys (List.mem_of_mem_filter hname)
      have hpart : (Value.map es).part? (.entry name) = some x := hx
      exact ⟨[.field name], x, rfl, .below hpart (.field name) (.here x)⟩
    all_goals cases h
  | atomic type => exact AttributeType.shows_of_mem_report hv h
  | list m | set m | map m => cases h

/-- What is said of a value is said where something stands in it, except for a root that is not an
object. -/
theorem Node.shows_of_mem_remarks (hv : v.Ordered) (h : d ∈ n.remarks path (some v)) :
    (∃ inner x, d.path = some ⟨path.steps ++ inner⟩ ∧ v.Shows inner x) ∨
    path.isRoot = true ∧ d = expectedObject path v := by
  have hhere : d.path = some path → ∃ inner x, d.path = some ⟨path.steps ++ inner⟩ ∧
      v.Shows inner x := by
    intro hpath
    refine ⟨[], v, ?_, .here v⟩
    rw [List.append_nil]
    exact hpath
  rcases mem_remarks_cases h with h | rfl | ⟨w, hw, rfl | h | h⟩
  · exact .inl (hhere (path_of_mem_reportUnset h))
  · exact .inl (hhere rfl)
  · cases hw
    rcases n.path_mismatch path v with hobject | hpath
    · rw [hobject] at hhere ⊢
      cases hroot : path.isRoot with
      | true => exact .inr ⟨rfl, rfl⟩
      | false => exact .inl (hhere (path_expectedObject hroot v))
    · exact .inl (hhere hpath)
  · cases hw
    exact .inl (View.shows_of_mem_reportHere hv h)
  · exact .inl (hhere (path_of_mem_reportCount h))

end

/-! ## Where diagnostics point to -/

namespace Schema

variable {s : Schema β} {v : Value} {d : Diagnostic}

/-- The path leads to an object up to its last step, which is a name that the schema declares there
and the object has not. -/
def Lacks (s : Schema β) (v : Value) (p : Path) : Prop :=
  ∃ above name es parent node, p = Path.field above name ∧ v.atPath above = .ok (.map es) ∧
    Keyed.get? es name = none ∧ (Node.block s.root).DeclaresAlong above.steps parent ∧
    parent.Declares (.field name) node

theorem validate_of_not_object (s : Schema β) (hv : v.isKnown = true) (h : v.asEntries? = none) :
    s.validate v = [expectedObject .root v] := by
  rw [validate, s.root.report_eq hv]
  cases v <;> first | rfl | cases h

/-- Of an object, everything is said at a path. -/
theorem not_object_of_mem_remarks (hv : v.Ordered)
    (h : expectedObject .root v ∈ (Node.block s.root).remarks .root (some v)) :
    v.isKnown = true ∧ v.asEntries? = none := by
  cases v
  case null | unknown => cases h
  case map es =>
    rcases List.mem_append.mp h with h | h
    · obtain ⟨inner, x, hpath, _⟩ := View.shows_of_mem_reportHere hv h
      cases hpath
    · cases h
  all_goals exact ⟨rfl, rfl⟩

theorem points_of_mem_validate (hv : v.Ordered) (h : d ∈ s.validate v) :
    (∃ p, d.path = some p ∧ ((∃ x, v.atPath p = .ok x) ∨ s.Lacks v p)) ∨
    d = expectedObject .root v ∧ v.isKnown = true ∧ v.asEntries? = none := by
  obtain ⟨path, m, w, hchecks, hd⟩ := mem_validate_iff.mp h
  rcases hchecks.shows hv with ⟨x, rfl, hshows⟩ | ⟨rfl, above, name, es, parent, hsteps, hshows,
    hlacks, habove, hlast⟩
  · rcases Node.shows_of_mem_remarks (hv.shows hshows) hd with ⟨inner, y, hpath, hinner⟩ |
      ⟨hroot, rfl⟩
    · obtain ⟨z, hz, _⟩ := (hshows.append hinner).atPath
      exact .inl ⟨_, hpath, .inl ⟨z, hz⟩⟩
    · -- Only the root has no steps.
      obtain ⟨steps⟩ := path
      obtain rfl : steps = [] := List.isEmpty_iff.mp hroot
      obtain ⟨rfl, hvx⟩ := hchecks
      cases hvx
      exact .inr ⟨rfl, not_object_of_mem_remarks hv hd⟩
  · obtain ⟨fs, hfs, hname⟩ := hshows.atPath_lacking hlacks
    refine .inl ⟨path, Node.path_of_mem_reportUnset hd, .inr ?_⟩
    refine ⟨⟨above⟩, name, fs, parent, m, ?_, hfs, hname, habove, hlast⟩
    exact congrArg Path.mk hsteps

/-- Every diagnostic has a path that leads to a value, or to a name that is declared and that an
object in the value lacks. A diagnostic without a path is the only one, and says that the root is
not an object. -/
theorem diagnostics_point_at_places (s : Schema β) (hv : v.Ordered) :
    (∀ d ∈ s.validate v, ∀ p, d.path = some p → (∃ x, v.atPath p = .ok x) ∨ s.Lacks v p) ∧
    ∀ d ∈ s.validate v, d.path = none → s.validate v = [d] ∧ d.summary = "Expected object" ∧
      v.isKnown = true ∧ v.asEntries? = none := by
  constructor
  · intro d hd p hp
    rcases points_of_mem_validate hv hd with ⟨q, hq, hpoints⟩ | ⟨rfl, _⟩
    · rw [hp] at hq
      cases hq
      exact hpoints
    · cases hp
  · intro d hd hp
    rcases points_of_mem_validate hv hd with ⟨q, hq, _⟩ | ⟨rfl, hknown, hentries⟩
    · rw [hp] at hq
      cases hq
    · exact ⟨s.validate_of_not_object hknown hentries, rfl, hknown, hentries⟩

end Schema

/-- Rules in a set of blocks, each of which must have a name. -/
def namedRules : PlainSchema :=
  let rule : Block Unit := ⟨[("name", .requiredString)], [], none⟩
  ⟨0, ⟨[], [("rules", ⟨rule, .set, 0, 0⟩)], none⟩⟩

/-- The name of a rule without contents is missed where the rule stands in the set. -/
theorem diagnostics_point_at_missing_name :
    let v : Value := .map [("rules", .list [.map []])]
    let missing : Path := ((Path.root.field "rules").element (.map [])).field "name"
    v.Ordered ∧ namedRules.validate v = [missingAttribute missing] ∧
      ((∃ x, v.atPath missing = .ok x) ∨ namedRules.Lacks v missing) := by
  have hord : (Value.map [("rules", .list [.map []])]).Ordered := by
    refine Value.ordered_entry.mpr (.list ?_)
    simpa using Value.Ordered.map .nil nofun
  exact ⟨hord, rfl, (namedRules.diagnostics_point_at_places hord).1 _ List.mem_cons_self _ rfl⟩

end ProviderKit
