import ProviderKit.Proofs.Value.Contents
import ProviderKit.Schema.ValidateType

-- What validation reports of a value of a type, one level at a time: either that the value is not
-- of the type, or what is wrong with the values inside.

namespace ProviderKit

/-! ## Reports without errors -/

namespace Diagnostics

theorem hasError_append_eq_false_iff {a b : Diagnostics} :
    hasError (a ++ b) = false ↔ hasError a = false ∧ hasError b = false := by
  rw [hasError_append, Bool.or_eq_false_iff]

theorem hasError_flatMap_eq_false_iff {α : Type} {f : α → Diagnostics} {xs : List α} :
    hasError (xs.flatMap f) = false ↔ ∀ x ∈ xs, hasError (f x) = false := by
  induction xs with
  | nil => simp
  | cons x xs ih => rw [List.flatMap_cons, hasError_append_eq_false_iff, ih, List.forall_mem_cons]

end Diagnostics

/-! ## One level -/

theorem reportItems_eq (report : Path → Value → Diagnostics) (path : Path) (i : Nat)
    (xs : List Value) :
    reportItems report path i xs = (xs.zipIdx i).flatMap fun e => report (path.index e.2) e.1 := by
  induction xs generalizing i with
  | nil => rfl
  | cons x xs ih => rw [reportItems, ih, List.zipIdx_cons, List.flatMap_cons]

/-- Something right inside a value of a type: the step to it, its type and what it is. -/
structure Part where
  step : Step
  type : AttributeType
  value : Value

def Part.report (p : Part) (path : Path) : Diagnostics := p.type.report (path.push p.step) p.value

namespace AttributeType

/-- What messages call the type. -/
def name : AttributeType → String
  | .string => "string"
  | .int64 => "int64"
  | .float64 | .number => "number"
  | .bool => "bool"
  | .list _ => "list"
  | .set _ => "set"
  | .map _ => "map"
  | .object _ => "object"
  | .dynamic => "dynamic"

/-- What validation goes on to, in order; none when the value is not of the type. -/
def parts? : AttributeType → Value → Option (List Part)
  | .string, .string _ => some []
  | .int64, .number n => if n.isInt64 then some [] else none
  | .float64, .number _ | .number, .number _ => some []
  | .bool, .bool _ => some []
  | .list type, .list xs => some (xs.zipIdx.map fun e => ⟨.index e.2, type, e.1⟩)
  | .set type, .list xs => some (xs.map fun x => ⟨.element x, type, x⟩)
  | .map type, .map es => some (es.map fun e => ⟨.key e.1, type, e.2⟩)
  | .object fields, .map es => some (fields.filterMap fun f =>
      (Keyed.get? es f.1).map fun x => ⟨.field f.1, f.2, x⟩)
  | .dynamic, _ => some []
  | _, _ => none

variable {type : AttributeType} {path : Path} {v : Value}

theorem reportFields_eq {fields : List (String × AttributeType)} {es : Keyed Value} :
    reportFields fields path es = (fields.filterMap fun f =>
      (Keyed.get? es f.1).map fun x => (⟨.field f.1, f.2, x⟩ : Part)).flatMap (·.report path) := by
  induction fields with
  | nil => rfl
  | cons f fields ih =>
    obtain ⟨name, type⟩ := f
    rw [reportFields, ih, List.filterMap_cons]
    cases Keyed.get? es name <;> rfl

theorem report_of_not_isKnown (type : AttributeType) (path : Path) (hv : v.isKnown = false) :
    type.report path v = [] := by
  rcases Value.eq_null_or_eq_unknown hv with rfl | rfl
  all_goals
    unfold report
    rfl

/-- A value that is known must be of the type, and so must be what is inside. -/
theorem report_of_isKnown (type : AttributeType) (path : Path) (hv : v.isKnown = true) :
    type.report path v =
      match type.parts? v with
      | none => [wrongType path type.name v]
      | some parts => parts.flatMap (·.report path) := by
  cases v
  case null | unknown => cases hv
  case number n =>
    cases type
    case int64 => cases h : n.isInt64 <;> simp [report, parts?, Value.asNumber?, h, name]
    all_goals rfl
  case list xs =>
    cases type
    case list element =>
      simp only [report, Value.asItems?, parts?, reportItems_eq, List.flatMap_map]
      rfl
    case set element =>
      simp only [report, Value.asItems?, parts?, reportElements, List.flatMap_map]
      rfl
    all_goals rfl
  case map es =>
    cases type
    case map element =>
      simp only [report, Value.asEntries?, parts?, reportEntries, List.flatMap_map]
      rfl
    case object fields => exact reportFields_eq
    all_goals rfl
  all_goals cases type <;> rfl

/-- What validation goes on to stands inside the value. -/
theorem encloses_of_parts? {parts : List Part} (h : type.parts? v = some parts) :
    ∀ p ∈ parts, v.Encloses p.value := by
  cases v
  case list xs =>
    cases type
    case list element =>
      cases h
      refine List.forall_mem_map.mpr fun e he => .item ?_
      exact List.mem_of_getElem? (List.mem_zipIdx_iff_getElem?.mp he)
    case set element =>
      cases h
      exact List.forall_mem_map.mpr fun x hx => .item hx
    all_goals cases h
    exact nofun
  case map es =>
    cases type
    case map element =>
      cases h
      exact List.forall_mem_map.mpr fun e he => .entry he
    case object fields =>
      cases h
      intro p hp
      obtain ⟨f, _, hf⟩ := List.mem_filterMap.mp hp
      obtain ⟨x, hx, rfl⟩ := Option.map_eq_some_iff.mp hf
      exact .entry (Keyed.mem_of_get? hx)
    all_goals cases h
    exact nofun
  case number n =>
    cases type
    case int64 =>
      rw [parts?] at h
      split at h <;> cases h
      exact nofun
    all_goals
      cases h <;> exact nofun
  all_goals
    cases type <;> cases h <;> exact nofun

/-- All that is said of a value of a type is that something is of a wrong type. -/
theorem exists_wrongType_of_mem_report {d : Diagnostic} (h : d ∈ type.report path v) :
    ∃ inner expected found, d = wrongType inner expected found := by
  induction v using Value.enclosureInduction generalizing type path with
  | whole v ih =>
    cases hv : v.isKnown with
    | false =>
      rw [type.report_of_not_isKnown path hv] at h
      cases h
    | true =>
      rw [type.report_of_isKnown path hv] at h
      cases hparts : type.parts? v with
      | none =>
        rw [hparts] at h
        exact ⟨path, type.name, v, List.mem_singleton.mp h⟩
      | some parts =>
        rw [hparts] at h
        obtain ⟨p, hp, hd⟩ := List.mem_flatMap.mp h
        exact ih p.value (encloses_of_parts? hparts p hp) hd

/-- No error is reported of a known value of the type when none is of what is inside. -/
theorem hasError_report_eq_false_iff (hv : v.isKnown = true) :
    Diagnostics.hasError (type.report path v) = false ↔ ∃ parts, type.parts? v = some parts ∧
      ∀ p ∈ parts, Diagnostics.hasError (p.report path) = false := by
  rw [type.report_of_isKnown path hv]
  cases type.parts? v with
  | none => simp [Diagnostics.hasError, wrongType, Diagnostic.isError, Diagnostic.error,
      Diagnostic.atPath]
  | some parts => simp only [Diagnostics.hasError_flatMap_eq_false_iff, Option.some.injEq,
      exists_eq_left']

end AttributeType

end ProviderKit
