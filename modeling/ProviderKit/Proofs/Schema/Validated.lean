import ProviderKit.Schema.Build
import ProviderKit.Schema.Validate
import ProviderKit.Proofs.Plan.Stages
import ProviderKit.Proofs.Schema.Fitting
import ProviderKit.Proofs.Schema.Passing

-- Validation and walking agree: what validation reports no error on fits the schema, so no
-- walk over it ends with a fault.

namespace ProviderKit

variable {β : Type}

/-! ## What validation passes fits -/

/-- What passes at a node fits there. -/
theorem Node.Passes.fits {n : Node β} {v : Value} (h : n.Passes v) (hv : v.Ordered) :
    (Position.described n).Fits v := by
  induction v using Value.partsInduction generalizing n with
  | parts v ih =>
    cases hk : v.isKnown with
    | false => exact Position.fits_of_not_known (Position.described_ne_undeclared _) hk
    | true =>
      have hview := h.view hk
      cases hn : n.view <;> rw [hn] at hview
      case object attributes blocks =>
        cases hview with
        | object hmembers hdeclared =>
          refine Position.fits_object hn fun e he => ?_
          obtain ⟨m, hm⟩ := exists_member?_of_mem_names (hdeclared e he)
          have hget := Keyed.get?_of_mem hv.ascending he
          exact ⟨m, hm, ih (.entry e.1) e.2 hget (hmembers e.1 m e.2 hm hget) (hv.of_map he)⟩
      case list m =>
        cases hview with
        | list hitems =>
          refine Position.fits_items (.inl hn) fun x hx => ?_
          obtain ⟨i, hi⟩ := List.getElem?_of_mem hx
          exact ih (.item i) x hi (hitems x hx) (hv.of_list hx)
      case set m =>
        cases hview with
        | set hitems =>
          refine Position.fits_items (.inr hn) fun x hx => ?_
          obtain ⟨i, hi⟩ := List.getElem?_of_mem hx
          exact ih (.item i) x hi (hitems x hx) (hv.of_list hx)
      case map m =>
        cases hview with
        | map hentries =>
          refine Position.fits_entries hn fun e he => ?_
          have hget := Keyed.get?_of_mem hv.ascending he
          exact ih (.entry e.1) e.2 hget (hentries e he) (hv.of_map he)
      case atomic type => exact Position.fits_of_view_atomic hn v

/-- What validation reports no error on fits the schema. -/
theorem Schema.fits_of_validate {s : Schema β} {v : Value} (hord : v.Ordered)
    (h : Diagnostics.hasError (s.validate v) = false) : s.Fits v :=
  (show (Node.block s.root).Passes v from ⟨.root, h⟩).fits hord

/-! ## Walking what is valid -/

/-- Marking meets no fault where values fit: the only fault it passes on is that of a name that
is not in the schema. -/
theorem keptFitting_unknownAt (config : Value) :
    Position.KeptFitting (unknownAt (β := β) config) := by
  intro path position v hfits
  have hmark : ∃ u, unknownAt config path (position.node path) v = .ok u := by
    unfold unknownAt
    split
    · exact ⟨v, rfl⟩
    · split
      · exact ⟨v, rfl⟩
      · cases position with
        | undeclared => exact absurd rfl hfits.declared
        | atomic type => exact ⟨v, rfl⟩
        | described n => cases n <;> exact ⟨_, rfl⟩
  obtain ⟨u, hu⟩ := hmark
  refine ⟨u, hu, ?_⟩
  rw [eq_of_unknownAt hu]
  split
  · exact Position.fits_of_not_known hfits.declared rfl
  · exact hfits

theorem Schema.Fits.exists_markUnknowns {s : Schema β} {v : Value} (h : s.Fits v)
    (config : Value) : ∃ marked, s.markUnknowns config v = .ok marked ∧ s.Fits marked := by
  obtain ⟨filled, hfilled, hfits⟩ := h.exists_fillAbsent
  obtain ⟨marked, hmarked, hfits⟩ := hfits.exists_transform (keptFitting_unknownAt config)
  refine ⟨marked, ?_, hfits⟩
  rw [Schema.markUnknowns, hfilled]
  exact hmarked

/-- What validation reports no error on, a walk that changes nothing gives back, in either order,
and tells no visitor of a name that is not in the schema; filling it out and marking what the
provider decides meet no fault. -/
theorem Schema.walkable_of_validate {s : Schema β} {v : Value} (hord : v.Ordered)
    (h : Diagnostics.hasError (s.validate v) = false) :
    (∀ order, ∃ told, (s.transform order watching v).run [] = .ok (v, told) ∧
      ∀ path name, .error (.notInSchema path name) ∉ told) ∧
    (∃ filled, s.fillAbsent v = .ok filled) ∧
    ∀ config, ∃ marked, s.markUnknowns config v = .ok marked := by
  have hfits := s.fits_of_validate hord h
  refine ⟨fun order => hfits.unhindered_transform order [], ?_, fun config => ?_⟩
  · obtain ⟨filled, hfilled, _⟩ := hfits.exists_fillAbsent
    exact ⟨filled, hfilled⟩
  · obtain ⟨marked, hmarked, _⟩ := hfits.exists_markUnknowns config
    exact ⟨marked, hmarked⟩

/-- A machine with an address, tags, a set of rules and a list of disks. -/
def machineSchema : Schema Unit :=
  let plain (type : AttributeType) (flags : Flags) : Attribute Unit := ⟨type, flags, none, none, none, ()⟩
  let rules : Attribute Unit := ⟨.dynamic, .optionalOnly, none,
    some ⟨.set, [("note", plain .string .optionalOnly), ("port", plain .int64 .requiredOnly)]⟩, none, ()⟩
  let disk : NestedBlock Unit := ⟨⟨[("size", plain .number .requiredOnly)], [], none⟩, .list, 1, 3⟩
  ⟨0, ⟨[("address", plain .string .computedOnly), ("rules", rules),
    ("tags", plain (.map .string) .optionalOnly)], [("disk", disk)], none⟩⟩

/-- A machine with elements that are null, unknown or not filled out. -/
def machine : Value :=
  .map [("disk", .list [.map [("size", .unknown)], .null]),
    ("rules", .list [.map [("port", .unknown)], .null, .unknown]),
    ("tags", .map [("team", .string "a")])]

theorem machine_walkable :
    machine.Ordered ∧ Diagnostics.hasError (machineSchema.validate machine) = false ∧
    (∀ order, ∃ told, (machineSchema.transform order watching machine).run [] = .ok (machine, told) ∧
      ∀ path name, .error (.notInSchema path name) ∉ told) ∧
    (∃ filled, machineSchema.fillAbsent machine = .ok filled) ∧
    ∀ config, ∃ marked, machineSchema.markUnknowns config machine = .ok marked := by
  have hdisks : (Value.list [.map [("size", .unknown)], .null]).Ordered :=
    .list (by simp)
  have hrules : (Value.list [.map [("port", .unknown)], .null, .unknown]).Ordered :=
    .list (by simp)
  have hordered : machine.Ordered :=
    Value.ordered_of_keys (by decide) (by simp [hdisks, hrules])
  have hvalid : Diagnostics.hasError (machineSchema.validate machine) = false := rfl
  exact ⟨hordered, hvalid, machineSchema.walkable_of_validate hordered hvalid⟩

end ProviderKit
