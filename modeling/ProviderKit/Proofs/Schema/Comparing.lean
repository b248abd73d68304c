import Mathlib.Data.List.Forall2
import ProviderKit.Proofs.Schema.Reports

-- Comparing what validation reports of two values. Where reports can be compared piece by piece,
-- what is said of one node follows from what is said of the parts; and what is said does not depend
-- on the path, as far as the severity and the summary go.

namespace ProviderKit

open Validation

variable {β : Type}

/-! ## Gists -/

/-- A diagnostic without its detail and its path. -/
def Diagnostic.gist (d : Diagnostic) : Severity × String := (d.severity, d.summary)

def Diagnostics.gists (ds : Diagnostics) : List (Severity × String) := ds.map Diagnostic.gist

section

variable (path : Path)

@[simp] theorem gist_missingAttribute : (missingAttribute path).gist =
    (.error, "Missing Configuration for Required Attribute") := rfl

@[simp] theorem gist_readOnlyAttribute : (readOnlyAttribute path).gist =
    (.error, "Invalid Configuration for Read-Only Attribute") := rfl

@[simp] theorem gist_missingBlock (minItems : UInt32) : (missingBlock path minItems).gist =
    (.error, "Missing required block") := rfl

@[simp] theorem gist_tooFewBlocks (minItems count : UInt32) :
    (tooFewBlocks path minItems count).gist = (.error, "Insufficient blocks") := rfl

@[simp] theorem gist_tooManyBlocks (maxItems count : UInt32) :
    (tooManyBlocks path maxItems count).gist = (.error, "Too many blocks") := rfl

@[simp] theorem gist_unsupported (name : String) : (unsupported path name).gist =
    (.error, "Unsupported argument") := rfl

@[simp] theorem gist_wrongType (expected : String) (found : Value) :
    (wrongType path expected found).gist = (.error, "Incorrect attribute value type") := rfl

end

/-- A way to compare reports, in which reports with the same gists are alike and pieces that are
alike make up reports that are. -/
structure Diagnostics.Comparison (S : Diagnostics → Diagnostics → Prop) : Prop where
  of_gists : ∀ {a b}, gists a = gists b → S a b
  append : ∀ {a b c d}, S a b → S c d → S (a ++ c) (b ++ d)

theorem Diagnostics.Comparison.flatMap {S : Diagnostics → Diagnostics → Prop} (hS : Comparison S)
    {α γ : Type} {f : α → Diagnostics} {g : γ → Diagnostics} {xs : List α} {ys : List γ}
    (h : List.Forall₂ (fun x y => S (f x) (g y)) xs ys) : S (xs.flatMap f) (ys.flatMap g) := by
  induction h with
  | nil => exact hS.of_gists rfl
  | cons h _ ih =>
    rw [List.flatMap_cons, List.flatMap_cons]
    exact hS.append h ih

/-! ## What does not depend on the path -/

namespace Node

variable {v w : Value}

theorem gists_reportUnset (n : Node β) (p q : Path) :
    (n.reportUnset p).gists = (n.reportUnset q).gists := by
  cases n with
  | block b | nestedObject attributes => rfl
  | attr a =>
    rw [reportUnset, reportUnset]
    split <;> simp [Diagnostics.gists]
  | nestedBlock b =>
    rw [reportUnset, reportUnset]
    split <;> simp [Diagnostics.gists]

theorem gists_reportCount (n : Node β) (p q : Path)
    (hcount : ∀ mode : NestingMode, mode.count? v = mode.count? w) :
    (n.reportCount p v).gists = (n.reportCount q w).gists := by
  cases n with
  | block b | nestedObject attributes | attr a => rfl
  | nestedBlock b =>
    rw [reportCount, reportCount, hcount]
    cases b.mode.count? w with
    | none => rfl
    | some count =>
      simp only [ProviderKit.reportCount]
      split <;> split <;> simp [Diagnostics.gists]

end Node

/-- The names of a map that an object of the schema has no attribute and no block for. -/
def undeclared (attributes : List (String × Attribute β)) (blocks : List (String × NestedBlock β))
    (es : Keyed Value) : List String :=
  (Keyed.keys es).filter fun name => !(hasKey attributes name || hasKey blocks name)

theorem gists_map_unsupported {names others : List String} (h : names.length = others.length)
    (p q : Path) : Diagnostics.gists (names.map (unsupported p)) =
      Diagnostics.gists (others.map (unsupported q)) := by
  simp only [Diagnostics.gists, List.map_map, Function.comp_def, gist_unsupported,
    List.map_const', h]

theorem forall₂_zipIdx {α γ : Type} {R : α → γ → Prop} {xs : List α} {ys : List γ}
    (h : List.Forall₂ R xs ys) (i : Nat) :
    List.Forall₂ (fun e f => R e.1 f.1) (xs.zipIdx i) (ys.zipIdx i) := by
  induction h generalizing i with
  | nil => exact .nil
  | cons h _ ih => exact .cons h (ih (i + 1))

/-! ## Two values at one place -/

namespace Diagnostics.Comparison

variable {S : Diagnostics → Diagnostics → Prop} (hS : Comparison S) {p q : Path} {v w : Value}
  {n m : Node β}

include hS

/-- Known values of one type, whose parts compare. -/
theorem typeReport {type : AttributeType} (hv : v.isKnown = true) (hw : w.isKnown = true)
    (hparts : Option.Rel (List.Forall₂ fun x y => S (x.report p) (y.report q)) (type.parts? v)
      (type.parts? w)) : S (type.report p v) (type.report q w) := by
  rw [type.report_of_isKnown p hv, type.report_of_isKnown q hw]
  generalize type.parts? v = parts, type.parts? w = others at hparts
  cases hparts with
  | none => exact hS.of_gists (by simp [gists])
  | some h => exact hS.flatMap h

/-- Reports of one value of a type compare, whatever the paths. -/
theorem typeReport_self (type : AttributeType) (p q : Path) (v : Value) :
    S (type.report p v) (type.report q v) := by
  induction v using Value.enclosureInduction generalizing type p q with
  | whole v ih =>
    cases hv : v.isKnown with
    | false =>
      rw [type.report_of_not_isKnown p hv, type.report_of_not_isKnown q hv]
      exact hS.of_gists rfl
    | true =>
      refine hS.typeReport hv hv ?_
      cases hparts : type.parts? v with
      | none => exact .none
      | some parts =>
        refine .some (List.forall₂_same.mpr fun x hx => ?_)
        exact ih x.value (AttributeType.encloses_of_parts? hparts x hx) x.type _ _

/-- Reports of what is null or unknown compare, whatever the paths. -/
theorem unsetReport (n : Node β) (p q : Path) (hv : v.isKnown = false) :
    S (n.report p v) (n.report q v) := by
  rcases Value.eq_null_or_eq_unknown hv with rfl | rfl
  · rw [n.report_null, n.report_null]
    exact hS.of_gists (n.gists_reportUnset p q)
  · rw [n.report_unknown, n.report_unknown]
    exact hS.of_gists rfl

/-- Known values at one node that are not of the kind that it asks for. -/
theorem mismatchReport (hv : v.isKnown = true) (hw : w.isKnown = true)
    (hnone : n.view.contents? v = none) (hnone' : n.view.contents? w = none)
    (h : S [n.mismatch p v] [n.mismatch q w]) : S (n.report p v) (n.report q w) := by
  rw [n.report_of_isKnown p hv, n.report_of_isKnown q hw, View.report?, View.report?, hnone, hnone']
  cases n.isReadOnly with
  | true => exact hS.of_gists (by simp [gists])
  | false => exact h

/-- Known values at one node, whose contents compare. -/
theorem report {contents others : List (Content β)} (hv : v.isKnown = true)
    (hw : w.isKnown = true) (hsome : n.view.contents? v = some contents)
    (hsome' : n.view.contents? w = some others)
    (hcontents : List.Forall₂ (fun c d => S (c.report p) (d.report q)) contents others)
    (hhere : S (n.view.reportHere p v) (n.view.reportHere q w))
    (hcount : S (n.reportCount p v) (n.reportCount q w)) : S (n.report p v) (n.report q w) := by
  rw [n.report_of_isKnown p hv, n.report_of_isKnown q hw, View.report?, View.report?, hsome, hsome']
  cases n.isReadOnly with
  | true => exact hS.of_gists (by simp [gists])
  | false => exact hS.append (hS.append (hS.flatMap hcontents) hhere) hcount

theorem typedReport {type : AttributeType} (hview : n.view = .atomic type) (hv : v.isKnown = true)
    (hw : w.isKnown = true) (h : S (type.report p v) (type.report q w)) :
    S (n.report p v) (n.report q w) := by
  have hcollects : n.view.collects = false := by rw [hview]; rfl
  refine hS.report hv hw (by rw [hview]; rfl) (by rw [hview]; rfl) .nil ?_ ?_
  · rw [hview]
    exact h
  · rw [n.reportCount_eq_nil hcollects, n.reportCount_eq_nil hcollects]
    exact hS.of_gists rfl

/-- Objects, whose members compare and which have as many names that are not declared. -/
theorem objectReport {attributes : List (String × Attribute β)}
    {blocks : List (String × NestedBlock β)} {es fs : Keyed Value}
    (hview : n.view = .object attributes blocks)
    (hmembers : ∀ e ∈ members attributes blocks, ∀ p q,
      S (e.2.reportAt p (Keyed.get? es e.1)) (e.2.reportAt q (Keyed.get? fs e.1)))
    (hundeclared : (undeclared attributes blocks es).length =
      (undeclared attributes blocks fs).length) :
    S (n.report p (.map es)) (n.report q (.map fs)) := by
  have hcollects : n.view.collects = false := by rw [hview]; rfl
  refine hS.report rfl rfl (by rw [hview]; rfl) (by rw [hview]; rfl) ?_ ?_ ?_
  · rw [List.forall₂_map_left_iff, List.forall₂_map_right_iff, List.forall₂_same]
    exact fun e he => hmembers e he _ _
  · rw [hview]
    exact hS.of_gists (gists_map_unsupported hundeclared p q)
  · rw [n.reportCount_eq_nil hcollects, n.reportCount_eq_nil hcollects]
    exact hS.of_gists rfl

/-- Collections of the same size, whose contents compare. -/
theorem collectionReport {contents others : List (Content β)} (hcollects : n.view.collects = true)
    (hv : v.isKnown = true) (hw : w.isKnown = true) (hsome : n.view.contents? v = some contents)
    (hsome' : n.view.contents? w = some others)
    (hcontents : List.Forall₂ (fun c d => S (c.report p) (d.report q)) contents others)
    (hcount : ∀ mode : NestingMode, mode.count? v = mode.count? w) :
    S (n.report p v) (n.report q w) := by
  refine hS.report hv hw hsome hsome' hcontents ?_ (hS.of_gists (n.gists_reportCount p q hcount))
  rw [View.reportHere_eq_nil hcollects, View.reportHere_eq_nil hcollects]
  exact hS.of_gists rfl

theorem listReport {xs ys : List Value} (hview : n.view = .list m)
    (h : List.Forall₂ (fun x y => ∀ p q, S (m.report p x) (m.report q y)) xs ys) :
    S (n.report p (.list xs)) (n.report q (.list ys)) := by
  refine hS.collectionReport (by rw [hview]; rfl) rfl rfl (by rw [hview]; rfl) (by rw [hview]; rfl)
    ?_ fun mode => ?_
  · rw [List.forall₂_map_left_iff, List.forall₂_map_right_iff]
    exact (forall₂_zipIdx h 0).imp fun e f hef => hef _ _
  · cases mode <;> first | rfl | exact congrArg some h.length_eq

theorem setReport {xs ys : List Value} (hview : n.view = .set m)
    (h : List.Forall₂ (fun x y => ∀ p q, S (m.report p x) (m.report q y)) xs ys) :
    S (n.report p (.list xs)) (n.report q (.list ys)) := by
  refine hS.collectionReport (by rw [hview]; rfl) rfl rfl (by rw [hview]; rfl) (by rw [hview]; rfl)
    ?_ fun mode => ?_
  · rw [List.forall₂_map_left_iff, List.forall₂_map_right_iff]
    exact h.imp fun x y hxy => hxy _ _
  · cases mode <;> first | rfl | exact congrArg some h.length_eq

theorem mapReport {es fs : Keyed Value} (hview : n.view = .map m)
    (h : List.Forall₂ (fun e f => ∀ p q, S (m.report p e.2) (m.report q f.2)) es fs) :
    S (n.report p (.map es)) (n.report q (.map fs)) := by
  refine hS.collectionReport (by rw [hview]; rfl) rfl rfl (by rw [hview]; rfl) (by rw [hview]; rfl)
    ?_ fun mode => ?_
  · rw [List.forall₂_map_left_iff, List.forall₂_map_right_iff]
    exact h.imp fun e f hef => hef _ _
  · cases mode <;> first | rfl | exact congrArg some h.length_eq

end Diagnostics.Comparison

end ProviderKit
