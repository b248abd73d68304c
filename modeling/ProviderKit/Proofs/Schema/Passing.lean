import ProviderKit.Proofs.Schema.Places
import ProviderKit.Proofs.Schema.Reports

-- What it means that validation reports no error. A value that passes at a node of the schema is
-- of the shape that the node asks for, and its parts pass at the nodes below.

namespace ProviderKit

variable {β : Type}

/-! ## Reports without errors -/

section

variable {report : Path → Value → Diagnostics} {path : Path}

theorem passes_of_reportItems {xs : List Value} {i : Nat}
    (h : Diagnostics.hasError (reportItems report path i xs) = false) :
    ∀ x ∈ xs, ∃ at_, Diagnostics.hasError (report at_ x) = false := by
  induction xs generalizing i with
  | nil => exact nofun
  | cons x xs ih =>
    obtain ⟨hx, hxs⟩ := Diagnostics.hasError_append_eq_false_iff.mp h
    exact List.forall_mem_cons.mpr ⟨⟨_, hx⟩, ih hxs⟩

end

/-! ## What passes -/

/-- Validation reports no error on a value of the type. -/
def AttributeType.Passes (type : AttributeType) (v : Value) : Prop :=
  ∃ path, Diagnostics.hasError (type.report path v) = false

/-- Validation reports no error on a value at the node. -/
def Node.Passes (n : Node β) (v : Value) : Prop :=
  ∃ path, Diagnostics.hasError (n.report path v) = false

/-- Right below, a value has the shape that the schema asks for, and its parts pass: the members of
an object, all of them declared, or the items of a collection. -/
inductive View.Passes : View β → Value → Prop
  | object {attributes : List (String × Attribute β)} {blocks : List (String × NestedBlock β)}
      {es : Keyed Value} :
      (∀ name m x, Node.member? attributes blocks name = some m → Keyed.get? es name = some x →
        m.Passes x) →
      (∀ e ∈ es, e.1 ∈ Keyed.keys attributes ++ Keyed.keys blocks) →
      Passes (.object attributes blocks) (.map es)
  | list {m : Node β} {xs : List Value} : (∀ x ∈ xs, m.Passes x) → Passes (.list m) (.list xs)
  | set {m : Node β} {xs : List Value} : (∀ x ∈ xs, m.Passes x) → Passes (.set m) (.list xs)
  | map {m : Node β} {es : Keyed Value} : (∀ e ∈ es, m.Passes e.2) → Passes (.map m) (.map es)
  | atomic {type : AttributeType} {v : Value} : type.Passes v → Passes (.atomic type) v

/-! ## One level down -/

/-- What passes at a node, and is known, passes right below. -/
theorem Node.Passes.view {n : Node β} {v : Value} (h : n.Passes v) (hv : v.isKnown = true) :
    n.view.Passes v := by
  obtain ⟨path, hpath⟩ := h
  obtain ⟨_, contents, hcontents, hinside, hhere, _⟩ :=
    (Node.hasError_report_eq_false_iff hv).mp hpath
  cases hn : n.view with
  | object attributes blocks =>
    rw [hn] at hcontents hhere
    cases v
    case map es =>
      cases hcontents
      refine .object (fun name m x hm hx => ?_) fun e he => ?_
      · have hpass := hinside _ (List.mem_map_of_mem (mem_members_of_member? hm))
        rw [Content.report, hx] at hpass
        exact ⟨_, hpass⟩
      · have hkey := hasError_reportUndeclared_eq_false_iff.mp hhere e he
        rw [Bool.or_eq_true, hasKey_iff, hasKey_iff] at hkey
        exact List.mem_append.mpr hkey
    all_goals cases hcontents
  | list m =>
    rw [hn] at hcontents
    cases v
    case list xs =>
      cases hcontents
      refine .list fun x hx => ?_
      obtain ⟨i, hi⟩ := List.getElem?_of_mem hx
      have hmem : (x, i) ∈ List.zipIdx _ := List.mem_zipIdx_iff_getElem?.mpr hi
      exact ⟨_, hinside _ (List.mem_map_of_mem hmem)⟩
    all_goals cases hcontents
  | set m =>
    rw [hn] at hcontents
    cases v
    case list xs =>
      cases hcontents
      exact .set fun x hx => ⟨_, hinside _ (List.mem_map_of_mem hx)⟩
    all_goals cases hcontents
  | map m =>
    rw [hn] at hcontents
    cases v
    case map es =>
      cases hcontents
      exact .map fun e he => ⟨_, hinside _ (List.mem_map_of_mem he)⟩
    all_goals cases hcontents
  | atomic type =>
    rw [hn] at hhere
    exact .atomic ⟨path, hhere⟩

/-! ## Part by part -/

section

variable {v x : Value} {b : Branch} {s : Step} {place : List Branch} {steps : List Step}
  {n m : Node β}

/-- What passes at a node passes part by part. -/
theorem Node.Passes.part (h : n.Passes v) (hs : n.Leads s m) (hx : v.part? b = some x)
    (hb : x.Names b s) : m.Passes x := by
  have hview := h.view (Value.isKnown_of_part? hx)
  cases hs with
  | member hn hm =>
    cases hb
    obtain ⟨es, rfl, hget⟩ := Value.exists_map_of_part? hx
    rw [hn] at hview
    cases hview with
    | object hmembers _ => exact hmembers _ m x hm hget
  | item i hn =>
    cases hb
    obtain ⟨xs, rfl, hmem⟩ := Value.exists_list_of_part? hx
    rw [hn] at hview
    cases hview with
    | list hitems => exact hitems x hmem
  | element y hn =>
    cases hb
    obtain ⟨xs, rfl, hmem⟩ := Value.exists_list_of_part? hx
    rw [hn] at hview
    cases hview with
    | set hitems => exact hitems x hmem
  | entry k hn =>
    cases hb
    obtain ⟨es, rfl, hget⟩ := Value.exists_map_of_part? hx
    rw [hn] at hview
    cases hview with
    | map hentries => exact hentries (k, x) (Keyed.mem_of_get? hget)

/-- What passes at a node passes at every place that the steps of the schema lead to. -/
theorem Node.Passes.at? (h : n.Passes v) (hspells : v.Spells place steps)
    (hsteps : n.Reaches steps m) (hx : v.at? place = some x) : m.Passes x := by
  induction place generalizing n v steps with
  | nil =>
    cases hspells
    cases hsteps
    cases hx
    exact h
  | cons b place ih =>
    obtain ⟨y, s, rest, hy, hb, hspells, rfl⟩ := hspells
    obtain ⟨next, hs, hsteps⟩ := hsteps
    rw [Value.at?, hy] at hx
    exact ih (h.part hs hy hb) hspells hsteps hx

end

end ProviderKit
