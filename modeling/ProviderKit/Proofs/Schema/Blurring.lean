import ProviderKit.Proofs.Keyed
import ProviderKit.Proofs.Schema.Comparing
import ProviderKit.Proofs.Schema.Validated

-- Values in which some parts have become unknown. Validation reports no more of them than before,
-- so what is valid stays valid while it is not known yet.

namespace ProviderKit

variable {β : Type}

/-- The second value is the first one with any parts of it, at any depth, replaced by unknown. -/
inductive Value.Blurs : Value → Value → Prop
  | unknown (v : Value) : Blurs v .unknown
  | atom {v : Value} : v.isAtom = true → Blurs v v
  | list {xs ys : List Value} : xs.length = ys.length →
      (∀ (i : Nat) x y, xs[i]? = some x → ys[i]? = some y → Blurs x y) → Blurs (.list xs) (.list ys)
  | map {es fs : Keyed Value} : es.length = fs.length →
      (∀ (i : Nat) e f, es[i]? = some e → fs[i]? = some f → e.1 = f.1) →
      (∀ (i : Nat) e f, es[i]? = some e → fs[i]? = some f → Blurs e.2 f.2) →
      Blurs (.map es) (.map fs)

/-! ## Items in pairs -/

theorem forall₂_of_getElem? {α γ : Type} {R : α → γ → Prop} {xs : List α} {ys : List γ}
    (hlength : xs.length = ys.length)
    (h : ∀ (i : Nat) x y, xs[i]? = some x → ys[i]? = some y → R x y) : List.Forall₂ R xs ys := by
  rw [List.forall₂_iff_get]
  refine ⟨hlength, fun i hx hy => ?_⟩
  exact h i _ _ (List.getElem?_eq_getElem hx) (List.getElem?_eq_getElem hy)

theorem forall₂_filterMap {α γ δ : Type} {R : γ → δ → Prop} {f : α → Option γ} {g : α → Option δ}
    {xs : List α} (h : ∀ x ∈ xs, Option.Rel R (f x) (g x)) :
    List.Forall₂ R (xs.filterMap f) (xs.filterMap g) := by
  induction xs with
  | nil => exact .nil
  | cons x xs ih =>
    have hrest := ih fun y hy => h y (List.mem_cons_of_mem _ hy)
    have hx := h x List.mem_cons_self
    rw [List.filterMap_cons, List.filterMap_cons]
    generalize f x = a, g x = b at hx
    cases hx with
    | none => exact hrest
    | some hab => exact .cons hab hrest

/-! ## Fewer diagnostics -/

/-- There are no more diagnostics in the second report than in the first. -/
def Diagnostics.NoMore (a b : Diagnostics) : Prop := b.length ≤ a.length

theorem Diagnostics.comparison_noMore : Comparison NoMore where
  of_gists h := by
    have hlength := congrArg List.length h
    rw [gists, gists, List.length_map, List.length_map] at hlength
    exact Nat.le_of_eq hlength.symm
  append hab hcd := by
    unfold NoMore at *
    rw [List.length_append, List.length_append]
    exact Nat.add_le_add hab hcd

open Diagnostics in
theorem AttributeType.noMore_of_blurs {v w : Value} (h : v.Blurs w) (type : AttributeType)
    (p q : Path) : NoMore (type.report p v) (type.report q w) := by
  induction h generalizing type p q with
  | unknown v =>
    rw [type.report_of_not_isKnown q rfl]
    exact Nat.zero_le _
  | atom _ => exact comparison_noMore.typeReport_self type p q _
  | list hlength _ ih =>
    have hitems := forall₂_of_getElem? hlength ih
    refine comparison_noMore.typeReport rfl rfl ?_
    cases type
    case list element =>
      refine .some ?_
      rw [List.forall₂_map_left_iff, List.forall₂_map_right_iff]
      exact (forall₂_zipIdx hitems 0).imp fun e f hef => hef element _ _
    case set element =>
      refine .some ?_
      rw [List.forall₂_map_left_iff, List.forall₂_map_right_iff]
      exact hitems.imp fun x y hxy => hxy element _ _
    case dynamic => exact .some .nil
    all_goals exact .none
  | @map es fs hlength hkeys _ ih =>
    have hentries := forall₂_of_getElem? hlength fun i e f he hf =>
      And.intro (hkeys i e f he hf) (ih i e f he hf)
    refine comparison_noMore.typeReport rfl rfl ?_
    cases type
    case map element =>
      refine .some ?_
      rw [List.forall₂_map_left_iff, List.forall₂_map_right_iff]
      exact hentries.imp fun e f hef => hef.2 element _ _
    case object fields =>
      refine .some (forall₂_filterMap fun f _ => ?_)
      have hfield := Keyed.rel_get? (R := fun x y => ∀ (type : AttributeType) p q,
        NoMore (type.report p x) (type.report q y)) hentries f.1
      generalize Keyed.get? es f.1 = x, Keyed.get? fs f.1 = y at hfield
      cases hfield with
      | none => exact .none
      | some hxy => exact .some (hxy f.2 _ _)
    case dynamic => exact .some .nil
    all_goals exact .none

-- An element is named by its value, so below one that has become less known even what is left as it
-- was is reported at another path.
open Diagnostics in
theorem Node.noMore_of_blurs {v w : Value} (h : v.Blurs w) (n : Node β) (p q : Path) :
    NoMore (n.report p v) (n.report q w) := by
  induction h generalizing n p q with
  | unknown v =>
    rw [n.report_unknown q]
    exact Nat.zero_le _
  | @atom v hv =>
    cases hk : v.isKnown with
    | false => exact comparison_noMore.unsetReport n p q hk
    | true =>
      cases hview : n.view with
      | atomic type =>
        exact comparison_noMore.typedReport hview hk hk
          (comparison_noMore.typeReport_self type p q v)
      | object attributes blocks | list m | set m | map m =>
        have hnone : n.view.contents? v = none := by
          rw [hview]
          cases v <;> first | rfl | cases hv
        exact comparison_noMore.mismatchReport hk hk hnone hnone (Nat.le_refl 1)
  | list hlength h ih =>
    have hitems := forall₂_of_getElem? hlength ih
    cases hview : n.view with
    | list m => exact comparison_noMore.listReport hview (hitems.imp fun x y hxy => hxy m)
    | set m => exact comparison_noMore.setReport hview (hitems.imp fun x y hxy => hxy m)
    | atomic type =>
      exact comparison_noMore.typedReport hview rfl rfl
        (AttributeType.noMore_of_blurs (.list hlength h) type p q)
    | object attributes blocks | map m =>
      exact comparison_noMore.mismatchReport rfl rfl (by rw [hview]; rfl) (by rw [hview]; rfl)
        (Nat.le_refl 1)
  | @map es fs hlength hkeys h ih =>
    have hentries := forall₂_of_getElem? hlength fun i e f he hf =>
      And.intro (hkeys i e f he hf) (ih i e f he hf)
    cases hview : n.view with
    | map m => exact comparison_noMore.mapReport hview (hentries.imp fun e f hef => hef.2 m)
    | object attributes blocks =>
      have hnames : Keyed.keys es = Keyed.keys fs :=
        Keyed.keys_eq_of_forall₂ (R := fun _ _ => True)
          (hentries.imp fun _ _ hef => ⟨hef.1, trivial⟩)
      refine comparison_noMore.objectReport hview (fun e _ p q => ?_) ?_
      · have hmember := Keyed.rel_get? (R := fun x y => ∀ (n : Node β) p q,
          NoMore (n.report p x) (n.report q y)) hentries e.1
        generalize Keyed.get? es e.1 = x, Keyed.get? fs e.1 = y at hmember
        cases hmember with
        | none => exact comparison_noMore.of_gists (e.2.gists_reportUnset p q)
        | some hxy => exact hxy e.2 p q
      · rw [undeclared, undeclared, hnames]
    | atomic type =>
      exact comparison_noMore.typedReport hview rfl rfl
        (AttributeType.noMore_of_blurs (.map hlength hkeys h) type p q)
    | list m | set m =>
      exact comparison_noMore.mismatchReport rfl rfl (by rw [hview]; rfl) (by rw [hview]; rfl)
        (Nat.le_refl 1)

/-- Where any parts of a value are replaced by unknown, validation reports at most as much as
before; what is valid stays valid. -/
theorem Schema.validate_of_blurs (s : Schema β) {v w : Value} (h : v.Blurs w) :
    (s.validate w).length ≤ (s.validate v).length ∧ (s.isValid v = true → s.isValid w = true) := by
  have hlength : (s.validate w).length ≤ (s.validate v).length :=
    (Node.block s.root).noMore_of_blurs h .root .root
  refine ⟨hlength, fun hv => ?_⟩
  have herror : Diagnostics.hasError (s.validate v) = false := by simpa [isValid] using hv
  have hnone : s.validate v = [] := (Node.report_eq_nil_iff (n := .block s.root)).mpr herror
  rw [hnone, List.length_nil, Nat.le_zero, List.length_eq_zero_iff] at hlength
  rw [isValid, hlength]
  rfl

/-- A machine whose disks and rules are not what the schema asks for. -/
def misfitMachine : Value :=
  .map [("disk", .list [.bool true, .map [("size", .string "big")]]), ("rules", .string "none")]

/-- The same machine before its disks are known. -/
def blurredMachine : Value :=
  .map [("disk", .list [.unknown, .map [("size", .unknown)]]), ("rules", .string "none")]

/-- Of three errors, the one outside of the disks is left. -/
theorem blurs_misfitMachine :
    misfitMachine.Blurs blurredMachine ∧
    (machineSchema.validate misfitMachine).length = 3 ∧
    (machineSchema.validate blurredMachine).length = 1 ∧
    (machineSchema.validate blurredMachine).length ≤ (machineSchema.validate misfitMachine).length ∧
    (machineSchema.isValid misfitMachine = true → machineSchema.isValid blurredMachine = true) := by
  have hentry : ∀ {k : String} {v w : Value}, v.Blurs w →
      (Value.map [(k, v)]).Blurs (.map [(k, w)]) := fun h =>
    .map rfl (fun | 0, _, _, rfl, rfl => rfl) (fun | 0, _, _, rfl, rfl => h)
  have hdisks : (Value.list [.bool true, .map [("size", .string "big")]]).Blurs
      (.list [.unknown, .map [("size", .unknown)]]) :=
    .list rfl fun
      | 0, _, _, rfl, rfl => .unknown _
      | 1, _, _, rfl, rfl => hentry (.unknown _)
  have hmachine : misfitMachine.Blurs blurredMachine :=
    .map rfl (fun | 0, _, _, rfl, rfl => rfl | 1, _, _, rfl, rfl => rfl) fun
      | 0, _, _, rfl, rfl => hdisks
      | 1, _, _, rfl, rfl => .atom rfl
  exact ⟨hmachine, rfl, rfl, machineSchema.validate_of_blurs hmachine⟩

end ProviderKit
