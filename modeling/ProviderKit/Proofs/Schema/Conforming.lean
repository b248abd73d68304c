import ProviderKit.Proofs.Schema.Reports
import ProviderKit.Proofs.Schema.Validated

-- What it takes for a value to conform to a schema, said without any report or path. Validation
-- reports no error on the values that conform, and on no others.

namespace ProviderKit

open Validation

variable {β : Type}

/-! ## Conforming values -/

/-- The values of a type, at every depth. Null and unknown are of every type, and an object may lack
fields and have others beside those of its type. -/
inductive AttributeType.Admits : AttributeType → Value → Prop
  | null (type : AttributeType) : Admits type .null
  | unknown (type : AttributeType) : Admits type .unknown
  | string (text : String) : Admits .string (.string text)
  | int64 {n : Number} : n.isInt64 = true → Admits .int64 (.number n)
  | float64 (n : Number) : Admits .float64 (.number n)
  | number (n : Number) : Admits .number (.number n)
  | bool (b : Bool) : Admits .bool (.bool b)
  | list {type : AttributeType} {xs : List Value} : (∀ x ∈ xs, Admits type x) →
      Admits (.list type) (.list xs)
  | set {type : AttributeType} {xs : List Value} : (∀ x ∈ xs, Admits type x) →
      Admits (.set type) (.list xs)
  | map {type : AttributeType} {es : Keyed Value} : (∀ e ∈ es, Admits type e.2) →
      Admits (.map type) (.map es)
  | object {fields : List (String × AttributeType)} {es : Keyed Value} :
      (∀ f ∈ fields, ∀ x, Keyed.get? es f.1 = some x → Admits f.2 x) →
      Admits (.object fields) (.map es)
  | dynamic (v : Value) : Admits .dynamic v

namespace Node

/-- There must be a value, other than null. -/
def isRequired : Node β → Bool
  | .attr a => a.flags.required
  | .nestedBlock b => 0 < b.minItems
  | .block _ | .nestedObject _ => false

/-- So many objects may be collected; zero sets no upper limit. -/
def Allows (n : Node β) (count : Nat) : Prop :=
  match n with
  | .nestedBlock b =>
    b.minItems.toNat ≤ count ∧ (b.maxItems.toNat = 0 ∨ count ≤ b.maxItems.toNat)
  | _ => True

/-- The values that conform to a node; there need not be one where none is required. What is
neither null nor unknown conforms unless the provider alone decides it: an object with declared
names only, all that is declared conforming; a collection within the limits, of conforming objects;
or a value of the type. -/
inductive Conforms : Node β → Option Value → Prop
  | absent {n : Node β} : n.isRequired = false → Conforms n none
  | null {n : Node β} : n.isRequired = false → Conforms n (some .null)
  | unknown (n : Node β) : Conforms n (some .unknown)
  | object {n : Node β} {attributes : List (String × Attribute β)}
      {blocks : List (String × NestedBlock β)} {es : Keyed Value} : n.isReadOnly = false →
      n.view = .object attributes blocks →
      (∀ e ∈ es, e.1 ∈ Keyed.keys attributes ∨ e.1 ∈ Keyed.keys blocks) →
      (∀ e ∈ attributes, Conforms (.attr e.2) (Keyed.get? es e.1)) →
      (∀ e ∈ blocks, Conforms (.nestedBlock e.2) (Keyed.get? es e.1)) → Conforms n (some (.map es))
  | list {n m : Node β} {xs : List Value} : n.isReadOnly = false → n.view = .list m →
      n.Allows xs.length → (∀ x ∈ xs, Conforms m (some x)) → Conforms n (some (.list xs))
  | set {n m : Node β} {xs : List Value} : n.isReadOnly = false → n.view = .set m →
      n.Allows xs.length → (∀ x ∈ xs, Conforms m (some x)) → Conforms n (some (.list xs))
  | map {n m : Node β} {es : Keyed Value} : n.isReadOnly = false → n.view = .map m →
      n.Allows es.length → (∀ e ∈ es, Conforms m (some e.2)) → Conforms n (some (.map es))
  | typed {n : Node β} {type : AttributeType} {v : Value} : n.isReadOnly = false →
      n.view = .atomic type → v.isKnown = true → type.Admits v → Conforms n (some v)

end Node

/-- The value conforms to the schema, as an object of its root. -/
def Schema.Conforms (s : Schema β) (v : Value) : Prop := (Node.block s.root).Conforms (some v)

/-- No list and no map in the value has as many as `limit` items. -/
inductive Value.Narrow (limit : Nat) : Value → Prop
  | atom {v : Value} : v.isAtom = true → Narrow limit v
  | list {xs : List Value} : xs.length < limit → (∀ x ∈ xs, Narrow limit x) →
      Narrow limit (.list xs)
  | map {es : Keyed Value} : es.length < limit → (∀ e ∈ es, Narrow limit e.2) →
      Narrow limit (.map es)

theorem Value.narrow_list_iff {limit : Nat} {xs : List Value} :
    (Value.list xs).Narrow limit ↔ xs.length < limit ∧ ∀ x ∈ xs, x.Narrow limit := by
  constructor
  · intro h
    cases h with
    | atom h => cases h
    | list hlength h => exact ⟨hlength, h⟩
  · rintro ⟨hlength, h⟩
    exact .list hlength h

theorem Value.narrow_map_iff {limit : Nat} {es : Keyed Value} :
    (Value.map es).Narrow limit ↔ es.length < limit ∧ ∀ e ∈ es, e.2.Narrow limit := by
  constructor
  · intro h
    cases h with
    | atom h => cases h
    | map hlength h => exact ⟨hlength, h⟩
  · rintro ⟨hlength, h⟩
    exact .map hlength h

theorem Value.Narrow.enclosed {limit : Nat} {v x : Value} (h : v.Narrow limit)
    (hx : v.Encloses x) : x.Narrow limit := by
  cases hx with
  | item hx => exact (narrow_list_iff.mp h).2 _ hx
  | entry he => exact (narrow_map_iff.mp h).2 _ he

/-! ## Types -/

theorem forall_mem_zipIdx {α : Type} {P : α → Prop} {xs : List α} {i : Nat} :
    (∀ e ∈ xs.zipIdx i, P e.1) ↔ ∀ x ∈ xs, P x := by
  rw [← List.forall_mem_map, List.zipIdx_map_fst]

namespace AttributeType

variable {type : AttributeType} {path : Path} {v : Value}

/-- A known value is of a type when validation finds so, and finds the same of what is inside. -/
theorem admits_iff_of_isKnown (hv : v.isKnown = true) :
    type.Admits v ↔ ∃ parts, type.parts? v = some parts ∧ ∀ p ∈ parts, p.type.Admits p.value := by
  constructor
  · intro h
    cases h with
    | null | unknown => cases hv
    | string | float64 | number | bool | dynamic => exact ⟨[], rfl, nofun⟩
    | int64 hn => exact ⟨[], if_pos hn, nofun⟩
    | list h => exact ⟨_, rfl, List.forall_mem_map.mpr (forall_mem_zipIdx.mpr h)⟩
    | set h => exact ⟨_, rfl, List.forall_mem_map.mpr h⟩
    | map h => exact ⟨_, rfl, List.forall_mem_map.mpr h⟩
    | object h =>
      refine ⟨_, rfl, fun p hp => ?_⟩
      obtain ⟨f, hf, hfield⟩ := List.mem_filterMap.mp hp
      obtain ⟨x, hx, rfl⟩ := Option.map_eq_some_iff.mp hfield
      exact h f hf x hx
  · rintro ⟨parts, hparts, h⟩
    cases type
    case list element =>
      cases v <;> cases hparts
      rw [List.forall_mem_map] at h
      exact .list (forall_mem_zipIdx.mp h)
    case set element =>
      cases v <;> cases hparts
      rw [List.forall_mem_map] at h
      exact .set h
    case map element =>
      cases v <;> cases hparts
      rw [List.forall_mem_map] at h
      exact .map h
    case object fields =>
      cases v <;> cases hparts
      refine .object fun f hf x hx => ?_
      exact h ⟨.field f.1, f.2, x⟩ (List.mem_filterMap.mpr ⟨f, hf, by rw [hx]; rfl⟩)
    case int64 =>
      cases v
      case number n =>
        rw [parts?] at hparts
        split at hparts
        · next hn => exact .int64 hn
        · cases hparts
      all_goals cases hparts
    all_goals
      cases v <;> cases hparts <;> constructor

/-- No error is reported of the values of a type, and of no others. -/
theorem hasError_report_eq_false_iff_admits :
    Diagnostics.hasError (type.report path v) = false ↔ type.Admits v := by
  induction v using Value.enclosureInduction generalizing type path with
  | whole v ih =>
    cases hv : v.isKnown with
    | false =>
      rw [type.report_of_not_isKnown path hv]
      refine iff_of_true rfl ?_
      rcases Value.eq_null_or_eq_unknown hv with rfl | rfl
      · exact .null type
      · exact .unknown type
    | true =>
      rw [hasError_report_eq_false_iff hv, admits_iff_of_isKnown hv]
      refine exists_congr fun parts => and_congr_right fun hparts => forall₂_congr fun p hp => ?_
      exact ih p.value (encloses_of_parts? hparts p hp)

end AttributeType

/-! ## Nodes -/

/-- Inside a value, all names of an object are declared, or the value is of the type. -/
def View.AdmitsHere : View β → Value → Prop
  | .object attributes blocks, .map es =>
    ∀ e ∈ es, e.1 ∈ Keyed.keys attributes ∨ e.1 ∈ Keyed.keys blocks
  | .atomic type, v => type.Admits v
  | _, _ => True

theorem View.hasError_reportHere_eq_false_iff {view : View β} {path : Path} {v : Value} :
    Diagnostics.hasError (view.reportHere path v) = false ↔ view.AdmitsHere v := by
  cases view with
  | object attributes blocks =>
    cases v
    case map es =>
      simp only [reportHere, hasError_reportUndeclared_eq_false_iff, Bool.or_eq_true, hasKey_iff,
        AdmitsHere]
    all_goals exact iff_of_true rfl trivial
  | atomic type => exact AttributeType.hasError_report_eq_false_iff_admits
  | list m | set m | map m => exact iff_of_true rfl trivial

/-- How many items a value has right inside. -/
def Value.size : Value → Nat
  | .list xs => xs.length
  | .map es => es.length
  | _ => 0

theorem Value.Narrow.size_lt {limit : Nat} {v : Value} (h : v.Narrow limit) (hlimit : 0 < limit) :
    v.size < limit := by
  cases h with
  | atom hv => cases v <;> first | exact hlimit | cases hv
  | list hlength _ => exact hlength
  | map hlength _ => exact hlength

theorem hasError_reportCount_iff {minItems maxItems : UInt32} {path : Path} {count : Nat} :
    Diagnostics.hasError (reportCount minItems maxItems path count) = true ↔
      count % 4294967296 < minItems.toNat ∨
        0 < maxItems.toNat ∧ maxItems.toNat < count % 4294967296 := by
  rw [Diagnostics.hasError, List.any_eq_true]
  constructor
  · rintro ⟨d, hd, _⟩
    rcases mem_reportCount_iff.mp hd with ⟨hmin, _⟩ | ⟨hzero, hmax, _⟩
    · exact .inl hmin
    · exact .inr ⟨hzero, hmax⟩
  · rintro (hmin | ⟨hzero, hmax⟩)
    · exact ⟨_, mem_reportCount_iff.mpr (.inl ⟨hmin, rfl⟩), rfl⟩
    · exact ⟨_, mem_reportCount_iff.mpr (.inr ⟨hzero, hmax, rfl⟩), rfl⟩

namespace Node

variable {n : Node β} {path : Path} {v : Value} {contents : List (Content β)}

/-- All objects that are collected are counted, and no others. -/
theorem count?_eq {mode : NestingMode} {attributes : List (String × Attribute β)}
    {blocks : List (String × NestedBlock β)} {m : Node β}
    (h : (collected mode attributes blocks m).contents? v = some contents) :
    mode.count? v =
      if (collected mode attributes blocks m).collects then some v.size else none := by
  cases mode <;> cases v <;> first | rfl | cases h

/-- Fewer objects than 32 bits can count are counted right. -/
theorem hasError_reportCount_eq_false_iff (hcontents : n.view.contents? v = some contents)
    (hsize : v.size < 4294967296) : Diagnostics.hasError (n.reportCount path v) = false ↔
      (n.view.collects = true → n.Allows v.size) := by
  cases n with
  | block b | nestedObject attributes | attr a => exact iff_of_true rfl fun _ => trivial
  | nestedBlock b =>
    rw [reportCount, count?_eq hcontents, view]
    cases (collected b.mode b.block.attributes b.block.blocks (block b.block)).collects with
    | false => simp
    | true =>
      simp only [if_true, forall_const, Allows]
      rw [← Bool.not_eq_true, hasError_reportCount_iff, Nat.mod_eq_of_lt hsize]
      omega

theorem conforms_iff_of_isKnown (hv : v.isKnown = true) :
    n.Conforms (some v) ↔ n.isReadOnly = false ∧ ∃ contents, n.view.contents? v = some contents ∧
      (∀ c ∈ contents, c.node.Conforms c.value?) ∧ n.view.AdmitsHere v ∧
      (n.view.collects = true → n.Allows v.size) := by
  constructor
  · intro h
    cases h with
    | null | unknown => cases hv
    | object hr hview hnames hattributes hblocks =>
      rw [hview]
      refine ⟨hr, _, rfl, ?_, hnames, fun h => absurd h Bool.false_ne_true⟩
      rw [List.forall_mem_map, members, List.forall_mem_append, List.forall_mem_map,
        List.forall_mem_map]
      exact ⟨hattributes, hblocks⟩
    | list hr hview hallows h =>
      rw [hview]
      refine ⟨hr, _, rfl, ?_, trivial, fun _ => hallows⟩
      rw [List.forall_mem_map]
      exact forall_mem_zipIdx.mpr h
    | set hr hview hallows h =>
      rw [hview]
      refine ⟨hr, _, rfl, ?_, trivial, fun _ => hallows⟩
      rw [List.forall_mem_map]
      exact h
    | map hr hview hallows h =>
      rw [hview]
      refine ⟨hr, _, rfl, ?_, trivial, fun _ => hallows⟩
      rw [List.forall_mem_map]
      exact h
    | typed hr hview _ h =>
      rw [hview]
      exact ⟨hr, [], rfl, List.forall_mem_nil _, h, fun h => absurd h Bool.false_ne_true⟩
  · rintro ⟨hr, contents, hcontents, hinside, hhere, hallows⟩
    cases hview : n.view with
    | object attributes blocks =>
      rw [hview] at hcontents hhere
      cases v <;> cases hcontents
      rw [List.forall_mem_map, members, List.forall_mem_append, List.forall_mem_map,
        List.forall_mem_map] at hinside
      exact .object hr hview hhere hinside.1 hinside.2
    | list m =>
      rw [hview] at hcontents hallows
      cases v <;> cases hcontents
      rw [List.forall_mem_map] at hinside
      exact .list hr hview (hallows rfl) (forall_mem_zipIdx.mp hinside)
    | set m =>
      rw [hview] at hcontents hallows
      cases v <;> cases hcontents
      rw [List.forall_mem_map] at hinside
      exact .set hr hview (hallows rfl) hinside
    | map m =>
      rw [hview] at hcontents hallows
      cases v <;> cases hcontents
      rw [List.forall_mem_map] at hinside
      exact .map hr hview (hallows rfl) hinside
    | atomic type =>
      rw [hview] at hhere
      exact .typed hr hview hv hhere

theorem hasError_reportUnset_eq_false_iff :
    Diagnostics.hasError (n.reportUnset path) = false ↔ n.isRequired = false := by
  cases n with
  | block b | nestedObject attributes => exact iff_of_true rfl rfl
  | attr a => cases h : a.flags.required <;> simp [reportUnset, isRequired, h, Diagnostics.hasError,
      missingAttribute, Diagnostic.isError, Diagnostic.error, Diagnostic.atPath]
  | nestedBlock b => by_cases h : 0 < b.minItems <;> simp [reportUnset, isRequired, h,
      Diagnostics.hasError, missingBlock, Diagnostic.isError, Diagnostic.error, Diagnostic.atPath]

/-- Validation reports no error at a node where a value conforms, and nowhere else. -/
theorem hasError_reportAt_eq_false_iff_conforms {v : Option Value}
    (hv : ∀ x, v = some x → x.Narrow 4294967296) :
    Diagnostics.hasError (n.reportAt path v) = false ↔ n.Conforms v := by
  induction n, v using Node.contentsInduction generalizing path with
  | level n v ih =>
    cases v with
    | none =>
      rw [reportAt, hasError_reportUnset_eq_false_iff]
      exact ⟨.absent, fun h => by cases h; assumption⟩
    | some v =>
      have hnarrow := hv v rfl
      rw [reportAt]
      cases hk : v.isKnown with
      | false =>
        rcases Value.eq_null_or_eq_unknown hk with rfl | rfl
        · rw [report_null, hasError_reportUnset_eq_false_iff]
          refine ⟨.null, fun h => ?_⟩
          cases h with
          | null h => exact h
          | typed _ _ hk _ => cases hk
        · rw [report_unknown]
          exact iff_of_true rfl (.unknown n)
      | true =>
        rw [hasError_report_eq_false_iff hk, conforms_iff_of_isKnown hk]
        refine and_congr_right fun hr => exists_congr fun contents =>
          and_congr_right fun hcontents => and_congr (forall₂_congr fun c hc => ?_)
            (and_congr View.hasError_reportHere_eq_false_iff
              (hasError_reportCount_eq_false_iff hcontents (hnarrow.size_lt (by decide))))
        refine ih c (mem_contents_iff.mpr ⟨hk, hr, _, hcontents, hc⟩) fun x hx => ?_
        exact hnarrow.enclosed (View.encloses_of_contents? hcontents hc hx)

end Node

/-- Validation reports no error on the values that conform to a schema, and on no others, as long as
no list and no map has more items than 32 bits can count. -/
theorem Schema.hasError_validate_eq_false_iff (s : Schema β) {v : Value}
    (hv : v.Narrow 4294967296) :
    Diagnostics.hasError (s.validate v) = false ↔ s.Conforms v :=
  (Node.block s.root).hasError_reportAt_eq_false_iff_conforms (v := some v) fun _ h => by
    cases h
    exact hv

/-- A machine with one disk more than may be. -/
def crowdedMachine : Value := .map [("disk", .list [.null, .null, .null, .unknown])]

/-- The one machine conforms and the other does not. -/
theorem machine_conforms :
    machine.Narrow 4294967296 ∧ machineSchema.Conforms machine ∧
    crowdedMachine.Narrow 4294967296 ∧ ¬ machineSchema.Conforms crowdedMachine := by
  have hnull : Value.null.Narrow 4294967296 := .atom rfl
  have hunknown : Value.unknown.Narrow 4294967296 := .atom rfl
  have hteam : (Value.string "a").Narrow 4294967296 := .atom rfl
  have hmachine : machine.Narrow 4294967296 := by
    simp [machine, Value.narrow_map_iff, Value.narrow_list_iff, hnull, hunknown, hteam]
  have hcrowded : crowdedMachine.Narrow 4294967296 := by
    simp [crowdedMachine, Value.narrow_map_iff, Value.narrow_list_iff, hnull, hunknown]
  refine ⟨hmachine, (machineSchema.hasError_validate_eq_false_iff hmachine).mp rfl, hcrowded, ?_⟩
  intro h
  have hvalid := (machineSchema.hasError_validate_eq_false_iff hcrowded).mpr h
  exact absurd hvalid (by decide)

end ProviderKit
