import ProviderKit.Proofs.Number.Worth
import ProviderKit.Proofs.Schema.Passing
import ProviderKit.Schema.Build

-- The integers of a value that validation reports no error on. Wherever the schema asks for an
-- integer of 64 bits, however far down, a number is one; but the check rounds numbers past the
-- signed range to doubles, and lets through those that are rounded to its upper end.

namespace ProviderKit

variable {β : Type}

/-! ## Types inside types -/

namespace AttributeType

/-- A step leads from a type to the type of what stands right below. -/
inductive Leads : AttributeType → Step → AttributeType → Prop
  | item {type : AttributeType} (i : Nat) : Leads (.list type) (.index i) type
  | element {type : AttributeType} (v : Value) : Leads (.set type) (.element v) type
  | entry {type : AttributeType} (k : String) : Leads (.map type) (.key k) type
  | member {fields : List (String × AttributeType)} {name : String} {type : AttributeType} :
      Keyed.get? fields name = some type → Leads (.object fields) (.field name) type

/-- Steps lead from a type to the type of what stands further down. -/
def Reaches : AttributeType → List Step → AttributeType → Prop
  | type, [], inner => type = inner
  | type, s :: steps, inner => ∃ next, type.Leads s next ∧ next.Reaches steps inner

end AttributeType

/-- At a place of the value, the schema asks for a type: that of an attribute, or a type inside of
it. -/
def Schema.TypedAt (s : Schema β) (v : Value) (place : List Branch) (type : AttributeType) : Prop :=
  ∃ (path : Path) (steps : List Step) (a : Attribute β), v.Spells place (path.steps ++ steps) ∧
    s.nodeAt path = .ok (.attr a) ∧ a.nested = none ∧ a.type.Reaches steps type

/-! ## What passes as a type -/

section

variable {v x : Value} {b : Branch} {s : Step} {place : List Branch} {steps : List Step}

theorem passes_of_reportFields {fields : List (String × AttributeType)} {path : Path}
    {es : Keyed Value} (h : Diagnostics.hasError (reportFields fields path es) = false)
    {name : String} {type : AttributeType} (hf : Keyed.get? fields name = some type)
    (hx : Keyed.get? es name = some x) :
    Diagnostics.hasError (type.report (path.field name) x) = false := by
  induction fields with
  | nil => cases hf
  | cons field fields ih =>
    obtain ⟨k, t⟩ := field
    rw [reportFields, Diagnostics.hasError_append_eq_false_iff] at h
    rw [Keyed.get?_cons] at hf
    by_cases hk : k = name
    · rw [if_pos hk] at hf
      cases hf
      rw [hk, hx] at h
      exact h.1
    · rw [if_neg hk] at hf
      exact ih h.2 hf

/-- What passes as a type passes part by part. -/
theorem AttributeType.Passes.part {type inner : AttributeType} (h : type.Passes v)
    (hs : type.Leads s inner) (hx : v.part? b = some x) (hb : x.Names b s) : inner.Passes x := by
  obtain ⟨path, hpath⟩ := h
  cases hs with
  | item i =>
    cases hb
    obtain ⟨xs, rfl, hmem⟩ := Value.exists_list_of_part? hx
    exact passes_of_reportItems hpath x hmem
  | element y =>
    cases hb
    obtain ⟨xs, rfl, hmem⟩ := Value.exists_list_of_part? hx
    exact ⟨_, Diagnostics.hasError_flatMap_eq_false_iff.mp hpath x hmem⟩
  | entry k =>
    cases hb
    obtain ⟨es, rfl, hget⟩ := Value.exists_map_of_part? hx
    exact ⟨_, Diagnostics.hasError_flatMap_eq_false_iff.mp hpath (k, x) (Keyed.mem_of_get? hget)⟩
  | member hf =>
    cases hb
    obtain ⟨es, rfl, hget⟩ := Value.exists_map_of_part? hx
    exact ⟨_, passes_of_reportFields hpath hf hget⟩

/-- What passes as a type passes at every place. -/
theorem AttributeType.Passes.at? {type inner : AttributeType} (h : type.Passes v)
    (hspells : v.Spells place steps) (hsteps : type.Reaches steps inner)
    (hx : v.at? place = some x) : inner.Passes x := by
  induction place generalizing type v steps with
  | nil =>
    cases hspells
    cases hsteps
    cases hx
    exact h
  | cons b place ih =>
    obtain ⟨y, s, rest, hy, hb, hspells, rfl⟩ := hspells
    obtain ⟨next, hs, hsteps⟩ := hsteps
    rw [Value.at?, hy] at hx
    exact ih (h.part hs hy hb) hspells hsteps hx

theorem AttributeType.passes_int64_iff {n : Number} :
    AttributeType.int64.Passes (.number n) ↔ n.isInt64 = true := by
  have hreport : ∀ path, AttributeType.int64.report path (.number n) =
      if n.isInt64 = true then [] else [wrongType path "int64" (.number n)] := fun _ => rfl
  unfold Passes
  constructor
  · rintro ⟨path, hpath⟩
    by_contra hn
    rw [hreport, if_neg hn] at hpath
    cases hpath
  · intro hn
    exact ⟨.root, by rw [hreport, if_pos hn]; rfl⟩

end

/-! ## Whole values -/

/-- Wherever the schema asks for a type, what passed validation and is known passes as that type. -/
theorem Schema.TypedAt.passes {s : Schema β} {v x : Value} {place : List Branch}
    {type : AttributeType} (htype : s.TypedAt v place type)
    (h : Diagnostics.hasError (s.validate v) = false) (hx : v.at? place = some x)
    (hk : x.isKnown = true) : type.Passes x := by
  obtain ⟨path, steps, a, hspells, ha, hnested, hsteps⟩ := htype
  obtain ⟨p, q, y, rfl, hp, hy, hq⟩ := Value.exists_of_spells_append hspells
  rw [Value.at?_append, hy] at hx
  have hroot : (Node.block s.root).Passes v := ⟨.root, h⟩
  have hattr := (hroot.at? hp (nodeAt_eq_ok_iff.mp ha) hy).view (Value.isKnown_of_at? hx hk)
  rw [Node.view, hnested] at hattr
  cases hattr with
  | atomic htype => exact htype.at? hq hsteps hx

/-- On a value that validation reports no error on, a number that stands where the schema asks for
an integer of 64 bits is worth one, unless it is past the upper end and is rounded to it: an
integer from the end on, up to 1024 more, or the double that is worth the end. -/
theorem isSigned64_of_validate_iff (s : Schema β) {v : Value}
    (h : Diagnostics.hasError (s.validate v) = false) {place : List Branch} {n : Number}
    (htype : s.TypedAt v place .int64) (hn : v.at? place = some (.number n)) :
    n.IsSigned64 ↔ ¬ n.RoundsToEnd := by
  have hpasses := AttributeType.passes_int64_iff.mp (htype.passes h hn rfl)
  constructor
  · intro hsigned hend
    exact hend.not_isSigned64 hsigned
  · intro hend
    exact (Number.isInt64_iff.mp hpasses).resolve_right hend

/-- A list of integers. -/
def countsSchema : PlainSchema :=
  Schema.empty.withAttribute "counts" (.make (.list .int64) .optionalOnly)

/-- A list of one number. -/
def countsOf (n : Number) : Value := .map [("counts", .list [.number n])]

theorem typedAt_countsOf (n : Number) :
    countsSchema.TypedAt (countsOf n) [.entry "counts", .item 0] .int64 := by
  have hitem : (Value.list [.number n]).Spells [.item 0] [.index 0] :=
    ⟨.number n, _, _, rfl, .index 0, rfl, rfl⟩
  have hspells : (countsOf n).Spells [.entry "counts", .item 0] [.field "counts", .index 0] :=
    ⟨.list [.number n], _, _, rfl, .field "counts", hitem, rfl⟩
  exact ⟨Path.root.field "counts", [.index 0], _, hspells, rfl, rfl, .int64, .item 0, rfl⟩

/-- The greatest integer of 64 bits with a sign. -/
def greatest : Number := .integer 9223372036854775807 (by decide)

theorem greatest_isSigned64 :
    Diagnostics.hasError (countsSchema.validate (countsOf greatest)) = false ∧
    countsSchema.TypedAt (countsOf greatest) [.entry "counts", .item 0] .int64 ∧
    greatest.IsSigned64 := by
  have hvalid : Diagnostics.hasError (countsSchema.validate (countsOf greatest)) = false := rfl
  have htype := typedAt_countsOf greatest
  refine ⟨hvalid, htype, (isSigned64_of_validate_iff _ hvalid htype rfl).mpr ?_⟩
  rintro ⟨hend, _⟩
  exact absurd hend (by decide)

/-- The integer after the greatest is past the range, and passes all the same. -/
theorem greatest_succ_passes :
    let n : Number := .integer 9223372036854775808 (by decide)
    Diagnostics.hasError (countsSchema.validate (countsOf n)) = false ∧
    countsSchema.TypedAt (countsOf n) [.entry "counts", .item 0] .int64 ∧
    (countsOf n).at? [.entry "counts", .item 0] = some (.number n) ∧ ¬ n.IsSigned64 := by
  refine ⟨rfl, typedAt_countsOf _, rfl, ?_⟩
  exact Number.RoundsToEnd.not_isSigned64 ⟨by decide, by decide⟩

end ProviderKit
