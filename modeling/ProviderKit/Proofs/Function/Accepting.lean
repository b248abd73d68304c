import Mathlib.Data.List.Forall2
import ProviderKit.Function.Definition

-- What functions accept. Arguments are dealt to the parameters in their order, the rest to the
-- variadic parameter, and a call is refused unless every argument suits its parameter.

namespace ProviderKit

/-! ## Errors told as one -/

namespace FuncError

theorem isSome_foldl_join (first : FuncError) (errors : List FuncError) :
    (errors.foldl (fun joined e => some (join joined e)) (some first)).isSome = true := by
  induction errors generalizing first with
  | nil => rfl
  | cons e rest ih => exact ih _

theorem joinAll_eq_none_iff {errors : List FuncError} : joinAll errors = none ↔ errors = [] := by
  cases errors with
  | nil => exact ⟨fun _ => rfl, fun _ => rfl⟩
  | cons e rest =>
    refine ⟨fun h => ?_, fun h => by cases h⟩
    have hsome : (joinAll (e :: rest)).isSome = true := isSome_foldl_join _ rest
    rw [h] at hsome
    cases hsome

/-- Diagnostics with an error among them are an error of a call. -/
theorem isSome_ofDiagnostics {ds : Diagnostics} (h : Diagnostics.hasError ds = true) :
    (ofDiagnostics ds).isSome = true := by
  obtain ⟨d, hd, herror⟩ := List.any_eq_true.mp h
  refine Option.isSome_iff_ne_none.mpr fun hnone => ?_
  have hempty := List.map_eq_nil_iff.mp (joinAll_eq_none_iff.mp hnone)
  have hmem : d ∈ ds.errors := List.mem_filter.mpr ⟨hd, herror⟩
  rw [hempty] at hmem
  cases hmem

end FuncError

/-! ## Parameters -/

/-- The value suits the parameter: it is null or unknown only where that is allowed. -/
structure Parameter.Accepts (p : Parameter) (v : Value) : Prop where
  null : v.isNull = true → p.allowNull = true
  unknown : v.isUnknown = true → p.allowUnknown = true

namespace FunctionDefinition

/-- The arguments suit the definition: each parameter has one of its own, and there are more only
for a variadic parameter. -/
structure Accepts (d : FunctionDefinition) (a : Arguments) : Prop where
  values : List.Forall₂ Parameter.Accepts d.parameters a.values
  variadic : ∀ v ∈ a.variadic, ∃ p, d.variadic = some p ∧ p.Accepts v

variable {d : FunctionDefinition}

theorem refusal_eq_none_iff {position : Nat} {v : Value} :
    d.refusal position v = none ↔ ∀ p, d.parameter? position = some p → p.Accepts v := by
  unfold refusal
  cases d.parameter? position with
  | none => exact ⟨fun _ p hp => (by cases hp), fun _ => rfl⟩
  | some p =>
    have hiff : (if v.isNull && !p.allowNull then some (refusedNull position p)
        else if v.isUnknown && !p.allowUnknown then some (refusedUnknown position p)
        else none) = none ↔ p.Accepts v := by
      split
      · next hnull =>
        simp only [Bool.and_eq_true, Bool.not_eq_true'] at hnull
        refine ⟨fun h => (by cases h), fun h => ?_⟩
        exact absurd ((h.null hnull.1).symm.trans hnull.2) Bool.noConfusion
      · next hnull =>
        split
        · next hunknown =>
          simp only [Bool.and_eq_true, Bool.not_eq_true'] at hunknown
          refine ⟨fun h => (by cases h), fun h => ?_⟩
          exact absurd ((h.unknown hunknown.1).symm.trans hunknown.2) Bool.noConfusion
        · next hunknown =>
          refine ⟨fun _ => ⟨fun h => ?_, fun h => ?_⟩, fun _ => rfl⟩
          · simpa [h] using hnull
          · simpa [h] using hunknown
    exact hiff.trans ⟨fun h q hq => by cases hq; exact h, fun h => h p rfl⟩

theorem refusals_eq_nil_iff {position : Nat} {given : List Value} :
    d.refusals position given = [] ↔
      ∀ i v, given[i]? = some v → ∀ p, d.parameter? (position + i) = some p → p.Accepts v := by
  induction given generalizing position with
  | nil => exact ⟨fun _ i v hv => (by cases hv), fun _ => rfl⟩
  | cons a rest ih =>
    rw [refusals, List.append_eq_nil_iff, Option.toList_eq_nil_iff, refusal_eq_none_iff, ih]
    constructor
    · rintro ⟨hfirst, hrest⟩ i v hv
      cases i with
      | zero =>
        cases hv
        exact hfirst
      | succ i =>
        rw [Nat.add_succ, ← Nat.succ_add]
        exact hrest i v hv
    · intro h
      refine ⟨h 0 a rfl, fun i v hv => ?_⟩
      rw [Nat.succ_add, ← Nat.add_succ]
      exact h (i + 1) v hv

theorem parameter?_of_lt {i : Nat} (h : i < d.parameters.length) :
    d.parameter? i = some d.parameters[i] := by
  rw [parameter?, List.getElem?_eq_getElem h, Option.some_or]

theorem parameter?_of_le {i : Nat} (h : d.parameters.length ≤ i) :
    d.parameter? i = d.variadic := by
  rw [parameter?, List.getElem?_eq_none h, Option.none_or]

/-- With a value for each parameter, none is refused exactly if all suit what they are dealt to. -/
theorem refusals_eq_nil_iff_accepts {a : Arguments} (h : a.values.length = d.parameters.length)
    (hvariadic : d.variadic = none → a.variadic = []) :
    d.refusals 0 (a.values ++ a.variadic) = [] ↔ d.Accepts a := by
  rw [refusals_eq_nil_iff]
  constructor
  · intro hall
    refine ⟨List.forall₂_iff_get.mpr ⟨h.symm, fun i hi hv => ?_⟩, fun v hv => ?_⟩
    · refine hall i _ ?_ _ ?_
      · rw [List.getElem?_append_left hv]
        exact List.getElem?_eq_getElem hv
      · rw [Nat.zero_add]
        exact parameter?_of_lt hi
    · obtain ⟨p, hp⟩ := Option.ne_none_iff_exists'.mp fun hnone => by
        rw [hvariadic hnone] at hv
        cases hv
      obtain ⟨i, hi⟩ := List.mem_iff_getElem?.mp hv
      refine ⟨p, hp, hall (a.values.length + i) v ?_ p ?_⟩
      · rw [List.getElem?_append_right (Nat.le_add_right _ _), Nat.add_sub_cancel_left]
        exact hi
      · rw [Nat.zero_add, parameter?_of_le (h ▸ Nat.le_add_right _ _)]
        exact hp
  · intro haccepts i v hv p hp
    rw [Nat.zero_add] at hp
    rcases Nat.lt_or_ge i a.values.length with hi | hi
    · rw [List.getElem?_append_left hi, List.getElem?_eq_getElem hi] at hv
      rw [parameter?_of_lt (h ▸ hi)] at hp
      cases hv
      cases hp
      exact haccepts.values.get (h ▸ hi) hi
    · rw [List.getElem?_append_right hi] at hv
      obtain ⟨q, hq, hqv⟩ := haccepts.variadic v (List.mem_of_getElem? hv)
      rw [parameter?_of_le (h ▸ hi), hq] at hp
      cases hp
      exact hqv

/-- The number of arguments is right. -/
structure Counts (d : FunctionDefinition) (given : List Value) : Prop where
  enough : d.parameters.length ≤ given.length
  noMore : d.variadic = none → given.length = d.parameters.length

theorem arguments_of_ok {given : List Value} {a : Arguments} (h : d.arguments given = .ok a) :
    d.Counts given ∧ d.refusals 0 given = [] ∧
      a = ⟨given.take d.parameters.length, given.drop d.parameters.length⟩ := by
  unfold arguments at h
  dsimp only at h
  split at h
  · cases h
  · next hcount =>
    split at h
    · cases h
    · next hless =>
      split at h
      · cases h
      · next hnone =>
        cases h
        refine ⟨⟨Nat.not_lt.mp hless, fun hvariadic => ?_⟩, FuncError.joinAll_eq_none_iff.mp hnone,
          rfl⟩
        by_contra hne
        exact hcount ⟨Option.isNone_iff_eq_none.mpr hvariadic, hne⟩

/-- Of a call with the right number of arguments, each argument is looked at. -/
theorem Counts.checked {given : List Value} (h : d.Counts given) :
    d.arguments given =
      match FuncError.joinAll (d.refusals 0 given) with
      | some e => .error e
      | none => .ok ⟨given.take d.parameters.length, given.drop d.parameters.length⟩ := by
  have hcount : ¬(d.variadic.isNone ∧ given.length ≠ d.parameters.length) :=
    fun ⟨hvariadic, hne⟩ => hne (h.noMore (Option.isNone_iff_eq_none.mp hvariadic))
  have hless : ¬ given.length < d.parameters.length := Nat.not_lt.mpr h.enough
  unfold arguments
  exact (if_neg hcount).trans (if_neg hless)

theorem Counts.arguments_eq {given : List Value} (h : d.Counts given)
    (hnone : d.refusals 0 given = []) :
    d.arguments given =
      .ok ⟨given.take d.parameters.length, given.drop d.parameters.length⟩ := by
  rw [h.checked, FuncError.joinAll_eq_none_iff.mpr hnone]

theorem Accepts.length_values {a : Arguments} (h : d.Accepts a) :
    a.values.length = d.parameters.length := h.values.length_eq.symm

theorem Accepts.variadic_eq_nil {a : Arguments} (h : d.Accepts a) (hnone : d.variadic = none) :
    a.variadic = [] := by
  refine List.eq_nil_iff_forall_not_mem.mpr fun v hv => ?_
  obtain ⟨p, hp, -⟩ := h.variadic v hv
  rw [hnone] at hp
  cases hp

theorem Accepts.counts {a : Arguments} (h : d.Accepts a) : d.Counts (a.values ++ a.variadic) where
  enough := by
    rw [List.length_append, h.length_values]
    exact Nat.le_add_right _ _
  noMore hnone := by rw [h.variadic_eq_nil hnone, List.append_nil, h.length_values]

/-- A call goes through exactly with the arguments that it was given, dealt so that the definition
accepts them. -/
theorem arguments_eq_ok_iff {given : List Value} {a : Arguments} :
    d.arguments given = .ok a ↔ a.values ++ a.variadic = given ∧ d.Accepts a := by
  constructor
  · intro h
    obtain ⟨hcounts, hnone, rfl⟩ := arguments_of_ok h
    have hall := List.take_append_drop d.parameters.length given
    refine ⟨hall, (refusals_eq_nil_iff_accepts ?_ fun hvariadic => ?_).mp ?_⟩
    · exact List.length_take_of_le hcounts.enough
    · exact List.drop_eq_nil_of_le (Nat.le_of_eq (hcounts.noMore hvariadic))
    · dsimp only
      rw [hall]
      exact hnone
  · rintro ⟨rfl, h⟩
    have hnone := (refusals_eq_nil_iff_accepts h.length_values h.variadic_eq_nil).mpr h
    rw [h.counts.arguments_eq hnone, ← h.length_values, List.take_left, List.drop_left]

end FunctionDefinition

end ProviderKit
